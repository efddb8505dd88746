import Mikaki.Identity.Card
import Mikaki.Lib.Slices
import Mikaki.Lib.Spans

/-!
# Tags, lengths and values

The three readers of the files of a card and of a passport: the flat fields of a
licence, the nested ones of a signature file, and one value at a position.
-/

namespace Mikaki.Identity.Tlv

open Checks Slices Spans
open Card (Bytes maxEf FailureCode CardFailure)

/-- An element that is there, or an error. -/
def present {ε α : Type} (e : ε) : Option α → Except (Stop ε) α
  | some a => .ok a
  | none => fail e

/-- `l.get(a..b)`. -/
def getSlice {ε : Type} (e : ε) (l : Bytes) (a b : Nat) : Except (Stop ε) Bytes :=
  if a ≤ b ∧ b ≤ l.length then .ok ((l.drop a).take (b - a)) else fail e

/-- `HashMap::insert` of a key that must be new. -/
def insertNew {ε τ : Type} [DecidableEq τ] (e : ε) (fields : List (τ × Bytes)) (tag : τ) (value : Bytes) :
    Except (Stop ε) (List (τ × Bytes)) :=
  if tag ∈ fields.map Prod.fst then fail e else .ok (fields ++ [(tag, value)])

def isPadding (b : UInt8) : Bool := b = 0 || b = 255

/-! ## A licence -/

def bad : CardFailure := FailureCode.invalidData.failure

/-- Where the value starts, and its length. -/
def licenseLength (bytes : Bytes) : Except (Stop CardFailure) (Nat × Nat) := do
  let length ← present bad bytes[1]?
  if length < 128 then return (2, length.toNat)
  else if length = 0x82 ∧ 4 ≤ bytes.length then
    let high ← index bytes 2
    let low ← index bytes 3
    return (4, high.toNat * 256 + low.toNat)
  else fail bad

def licenseField (fields : List (UInt8 × Bytes)) (bytes : Bytes) : Except (Stop CardFailure) (List (UInt8 × Bytes) × Bytes) := do
  let tag ← index bytes 0
  if isPadding tag then
    -- fixed-size files have their padding at the end
    if bytes.all isPadding then return (fields, []) else fail bad
  else
    let (start, length) ← licenseLength bytes
    let value ← getSlice bad bytes start (start + length)
    let fields ← insertNew bad fields tag value
    let rest ← slice bytes (start + length) bytes.length
    return (fields, rest)

/-! ## The signature of a My Number card -/

inductive VerificationError where
  | invalidEvidence
  | untrustedIssuer
  | signatureInvalid
  | expiredDocument
  deriving DecidableEq

/-- The bytes of a tag behind its first one, of which there are at most `4 - i`: the tag, and where it ends. -/
def tagTail (bytes : Bytes) : Nat → Nat → Nat → Except (Stop VerificationError) (Nat × Nat)
  | 0, _, _ => fail .invalidEvidence
  | left + 1, i, tag => do
    let b ← present .invalidEvidence bytes[i]?
    let tag := tag * 256 + b.toNat
    if b < 128 then return (tag, i + 1) else tagTail bytes left (i + 1) tag

/-- The length at `i`, and where its value starts. -/
def tlvLength (bytes : Bytes) (i : Nat) : Except (Stop VerificationError) (Nat × Nat) := do
  let b ← present .invalidEvidence bytes[i]?
  let i := i + 1
  if b < 128 then return (i, b.toNat)
  else
    let n := b.toNat % 128
    if n = 0 ∨ n > 2 ∨ i + n > bytes.length then fail .invalidEvidence
    else
      let digits ← slice bytes i (i + n)
      return (i + n, digits.foldl (fun length b => length * 256 + b.toNat) 0)

/-- The tag, and where it ends. -/
def tlvTag (bytes : Bytes) (first : UInt8) : Except (Stop VerificationError) (Nat × Nat) :=
  if first.toNat % 32 = 31 then tagTail bytes 3 1 first.toNat else .ok (first.toNat, 1)

def tlv (bytes : Bytes) : Except (Stop VerificationError) (Nat × Bytes × Bytes) := do
  let first ← present .invalidEvidence bytes[0]?
  let (tag, i) ← tlvTag bytes first
  let (i, length) ← tlvLength bytes i
  let value ← getSlice .invalidEvidence bytes i (i + length)
  let rest ← slice bytes (i + length) bytes.length
  return (tag, value, rest)

def mncField (fields : List (Nat × Bytes)) (body : Bytes) : Except (Stop VerificationError) (List (Nat × Bytes) × Bytes) := do
  let (tag, value, rest) ← tlv body
  if ¬(0xdf31 ≤ tag ∧ tag ≤ 0xdf33) then fail .invalidEvidence
  else
    let fields ← insertNew .invalidEvidence fields tag value
    return (fields, rest)

structure MncSignature where
  message : Bytes
  attributesHash : Bytes
  signature : Bytes
  deriving DecidableEq

def field (fields : List (Nat × Bytes)) (tag length : Nat) : Except (Stop VerificationError) Bytes :=
  present .invalidEvidence ((fields.lookup tag).filter fun v => v.length = length)

/-! ## A value at a position -/

def maxSod : Nat := 8192

/-- A length, and where its value starts. A sum that would overflow is behind the end of the data. -/
def valueLength (data : Bytes) (cursor : Nat) : Except (Stop Unit) (Nat × Nat) := do
  let first ← present () data[cursor]?
  let cursor := cursor + 1
  if first ≤ 0x7f then return (cursor, first.toNat)
  else if first = 0x81 then
    let n ← present () data[cursor]?
    if n.toNat < 128 then fail () else return (cursor + 1, n.toNat)
  else if first = 0x82 then
    let bytes ← getSlice () data cursor (cursor + 2)
    let high ← index bytes 0
    let low ← index bytes 1
    let n := high.toNat * 256 + low.toNat
    if ¬(256 ≤ n ∧ n ≤ maxSod) then fail () else return (cursor + 2, n)
  else fail ()

/-- The body of the tag at a position, and the position behind it. -/
def value (data : Bytes) (pos : Nat) (tag : Bytes) : Except (Stop Unit) (Bytes × Nat) := do
  let header := pos + tag.length
  let found ← getSlice () data pos header
  if found ≠ tag then fail ()
  else
    let (cursor, len) ← valueLength data header
    let body ← getSlice () data cursor (cursor + len)
    return (body, cursor + len)

/-! ## Slices that are there -/

section
variable {ε α : Type} {e : ε}

theorem present_eq_ok {o : Option α} {a : α} : present e o = .ok a ↔ o = some a := by
  cases o with
  | none => exact ⟨(fun h => by cases h), fun h => by cases h⟩
  | some b => exact ⟨(fun h => by cases h; rfl), fun h => by cases h; rfl⟩

theorem inRange_present (o : Option α) : InRange (present e o) := by
  cases o with
  | none => exact inRange_fail e
  | some a => exact inRange_ok a

theorem inRange_getSlice (l : Bytes) (a b : Nat) : InRange (getSlice e l a b) := by
  unfold getSlice
  split
  · exact inRange_ok _
  · exact inRange_fail e

/-- A slice is there between what is before it and what is behind it. -/
theorem getSlice_eq_ok {l v : Bytes} {a n : Nat} :
    getSlice e l a (a + n) = .ok v ↔ ∃ pre rest, l = pre ++ (v ++ rest) ∧ pre.length = a ∧ v.length = n := by
  unfold getSlice
  constructor
  · intro h
    split at h
    · rename_i hb
      cases h
      rw [Nat.add_sub_cancel_left]
      refine ⟨l.take a, l.drop (a + n), ?_, List.length_take_of_le (by omega), ?_⟩
      · rw [← List.drop_drop, List.take_append_drop, List.take_append_drop]
      · rw [List.length_take_of_le]
        rw [List.length_drop]
        omega
    · cases h
  · rintro ⟨pre, rest, rfl, rfl, rfl⟩
    rw [if_pos ⟨Nat.le_add_right _ _, by simp only [List.length_append]; omega⟩, List.drop_left' rfl, Nat.add_sub_cancel_left,
      List.take_left' rfl]

theorem slice_rest {pre : Bytes} {n : Nat} (rest : Bytes) (h : pre.length = n) :
    (slice (pre ++ rest) n (pre ++ rest).length : Except (Stop ε) Bytes) = .ok rest := by
  rw [slice_drop (by rw [List.length_append]; omega), List.drop_left' h]

variable {τ : Type} [DecidableEq τ] {fields fields' : List (τ × Bytes)} {tag : τ} {v : Bytes}

theorem insertNew_eq_ok : insertNew e fields tag v = .ok fields' ↔ tag ∉ fields.map Prod.fst ∧ fields ++ [(tag, v)] = fields' := by
  unfold insertNew
  by_cases h : tag ∈ fields.map Prod.fst
  · rw [if_pos h]
    exact ⟨(fun he => by cases he), fun he => absurd h he.1⟩
  · rw [if_neg h, Except.ok.injEq]
    exact ⟨fun he => ⟨h, he⟩, And.right⟩

theorem inRange_insertNew : InRange (insertNew e fields tag v) := by
  unfold insertNew
  split
  · exact inRange_fail e
  · exact inRange_ok _

end

/-! ## Lengths -/

/-- The forms of a length. `admits` says which numbers may follow `0x81` and `0x82`. -/
inductive Length (admits : Nat → Nat → Prop) : Nat → Bytes → Prop where
  | short (b : UInt8) (h : b.toNat < 128) : Length admits b.toNat [b]
  | one (b : UInt8) (h : admits 1 b.toNat) : Length admits b.toNat [0x81, b]
  | two (high low : UInt8) (h : admits 2 (high.toNat * 256 + low.toNat)) :
    Length admits (high.toNat * 256 + low.toNat) [0x82, high, low]

/-- A licence has no length behind `0x81`. -/
def LicenseForm (k _n : Nat) : Prop := k = 2

def AnyForm (_k _n : Nat) : Prop := True

/-- The shortest form, and no length over the maximum. -/
def ValueForm (k n : Nat) : Prop := k = 1 ∧ 128 ≤ n ∨ k = 2 ∧ 256 ≤ n ∧ n ≤ maxSod

theorem Length.ne_nil {admits : Nat → Nat → Prop} {n : Nat} {h : Bytes} (hl : Length admits n h) : h ≠ [] := by
  cases hl with
  | short b h => exact List.cons_ne_nil _ _
  | one b h => exact List.cons_ne_nil _ _
  | two high low h => exact List.cons_ne_nil _ _

theorem getElem?_pre (pre l : Bytes) (k : Nat) : (pre ++ l)[pre.length + k]? = l[k]? := by
  rw [List.getElem?_append_right (Nat.le_add_right _ _), Nat.add_sub_cancel_left]

theorem lt_128 {b : UInt8} : b < 128 ↔ b.toNat < 128 := UInt8.lt_iff_toNat_lt

theorem licenseLength_eq_ok {t : UInt8} {l : Bytes} {start n : Nat} : licenseLength (t :: l) = .ok (start, n) ↔
    ∃ h rest, Length LicenseForm n h ∧ l = h ++ rest ∧ start = 1 + h.length := by
  constructor
  · intro hr
    unfold licenseLength at hr
    rw [bind_eq_ok] at hr
    obtain ⟨b, hb, hr⟩ := hr
    rw [present_eq_ok, List.getElem?_cons_succ] at hb
    obtain ⟨l, rfl⟩ : ∃ l', l = b :: l' := by
      cases l with
      | nil => cases hb
      | cons c l => cases hb; exact ⟨l, rfl⟩
    split at hr
    · rename_i hlt
      cases hr
      exact ⟨[b], l, .short b (lt_128.mp hlt), rfl, rfl⟩
    split at hr
    · rename_i hlong
      obtain ⟨rfl, h4⟩ := hlong
      match l, h4, hr with
      | high :: low :: l, _, hr =>
        cases hr
        exact ⟨[0x82, high, low], l, .two high low rfl, rfl, rfl⟩
      | [], h4, _ => exact absurd h4 (show ¬4 ≤ 2 by decide)
      | [_], h4, _ => exact absurd h4 (show ¬4 ≤ 3 by decide)
    · cases hr
  · rintro ⟨h, rest, hl, rfl, rfl⟩
    cases hl with
    | short b h => exact if_pos (lt_128.mpr h)
    | one b h => exact absurd h (show ¬(1 : Nat) = 2 by decide)
    | two high low h =>
      have h4 : 4 ≤ (t :: ([0x82, high, low] ++ rest)).length := by
        simp only [List.length_cons, List.length_append]
        omega
      have hb : (t :: ([0x82, high, low] ++ rest))[1]? = some 0x82 := rfl
      rw [licenseLength, hb, present, ok_bind, if_neg (by decide), if_pos ⟨rfl, h4⟩]
      rfl

/-- What can be behind a byte of which only the low bits are the number of digits. -/
theorem digits_spec : ∀ b < 256, ¬b < 128 → ¬(b % 128 = 0 ∨ b % 128 > 2) → b = 0x81 ∨ b = 0x82 := by
  decide +kernel

def number (digits : Bytes) : Nat := digits.foldl (fun length b => length * 256 + b.toNat) 0

theorem number_one (b : UInt8) : number [b] = b.toNat := by simp [number]

theorem number_two (high low : UInt8) : number [high, low] = high.toNat * 256 + low.toNat := by simp [number]

theorem tlvLength_eq_ok {pre l : Bytes} {start n : Nat} : tlvLength (pre ++ l) pre.length = .ok (start, n) ↔
    ∃ h rest, Length AnyForm n h ∧ l = h ++ rest ∧ start = pre.length + h.length := by
  have hslice : ∀ k, pre.length + 1 + k ≤ (pre ++ l).length →
      (slice (pre ++ l) (pre.length + 1) (pre.length + 1 + k) : Except (Stop VerificationError) Bytes) = .ok ((l.drop 1).take k) := by
    intro k hk
    rw [slice_of_le (Nat.le_add_right _ _) hk, Nat.add_sub_cancel_left, ← List.drop_drop, List.drop_left' rfl]
  have hfirst : (pre ++ l)[pre.length]? = l[0]? := getElem?_pre pre l 0
  constructor
  · intro hr
    unfold tlvLength at hr
    rw [bind_eq_ok] at hr
    obtain ⟨b, hb, hr⟩ := hr
    rw [present_eq_ok, hfirst] at hb
    obtain ⟨l, rfl⟩ : ∃ l', l = b :: l' := by
      cases l with
      | nil => cases hb
      | cons c l => cases hb; exact ⟨l, rfl⟩
    dsimp only at hr
    split at hr
    · rename_i hlt
      cases hr
      exact ⟨[b], l, .short b (lt_128.mp hlt), rfl, rfl⟩
    split at hr
    · cases hr
    · rename_i hlt hn
      have hcount : ¬(b.toNat % 128 = 0 ∨ b.toNat % 128 > 2) := fun h => hn (h.imp_right .inl)
      have hle : pre.length + 1 + b.toNat % 128 ≤ (pre ++ b :: l).length := Nat.not_lt.mp fun h => hn (.inr (.inr h))
      rw [hslice _ hle, ok_bind] at hr
      rw [List.length_append, List.length_cons] at hle
      rcases digits_spec b.toNat b.toNat_lt (fun h => hlt (lt_128.mpr h)) hcount with hb | hb
      · obtain rfl : b = 0x81 := UInt8.toNat_inj.mp hb
        match l, hle, hr with
        | c :: l, _, hr =>
          cases hr
          refine ⟨[0x81, c], l, ?_, rfl, rfl⟩
          change Length AnyForm (number [c]) _
          rw [number_one]
          exact .one c trivial
        | [], hle, _ => exact absurd hle (by simp)
      · obtain rfl : b = 0x82 := UInt8.toNat_inj.mp hb
        match l, hle, hr with
        | c :: d :: l, _, hr =>
          cases hr
          refine ⟨[0x82, c, d], l, ?_, rfl, rfl⟩
          change Length AnyForm (number [c, d]) _
          rw [number_two]
          exact .two c d trivial
        | [], hle, _ => exact absurd hle (by simp)
        | [_], hle, _ => exact absurd hle (by simp)
  · rintro ⟨h, rest, hl, rfl, rfl⟩
    unfold tlvLength
    rw [hfirst]
    cases hl with
    | short b h => exact if_pos (lt_128.mpr h)
    | one b h =>
      have hle : pre.length + 1 + 1 ≤ (pre ++ ([0x81, b] ++ rest)).length := by
        simp only [List.length_append, List.length_cons]
        omega
      have hcount : ¬((0x81 : UInt8).toNat % 128 = 0 ∨ (0x81 : UInt8).toNat % 128 > 2 ∨
          pre.length + 1 + (0x81 : UInt8).toNat % 128 > (pre ++ ([0x81, b] ++ rest)).length) := by
        rintro (h | h | h)
        · cases h
        · exact absurd h (show ¬1 > 2 by decide)
        · exact Nat.not_lt.mpr hle h
      change (present _ (some (0x81 : UInt8)) >>= _) = _
      rw [present, ok_bind]
      dsimp only
      rw [if_neg (show ¬(0x81 : UInt8) < 128 by decide), if_neg hcount, show (0x81 : UInt8).toNat % 128 = 1 from rfl, hslice 1 hle, ok_bind]
      exact congrArg (fun n => Except.ok (pre.length + 1 + 1, n)) (number_one b)
    | two high low h =>
      have hle : pre.length + 1 + 2 ≤ (pre ++ ([0x82, high, low] ++ rest)).length := by
        simp only [List.length_append, List.length_cons]
        omega
      have hcount : ¬((0x82 : UInt8).toNat % 128 = 0 ∨ (0x82 : UInt8).toNat % 128 > 2 ∨
          pre.length + 1 + (0x82 : UInt8).toNat % 128 > (pre ++ ([0x82, high, low] ++ rest)).length) := by
        rintro (h | h | h)
        · cases h
        · exact absurd h (show ¬2 > 2 by decide)
        · exact Nat.not_lt.mpr hle h
      change (present _ (some (0x82 : UInt8)) >>= _) = _
      rw [present, ok_bind]
      dsimp only
      rw [if_neg (show ¬(0x82 : UInt8) < 128 by decide), if_neg hcount, show (0x82 : UInt8).toNat % 128 = 2 from rfl, hslice 2 hle, ok_bind]
      exact congrArg (fun n => Except.ok (pre.length + 1 + 2, n)) (number_two high low)

theorem le_127 {b : UInt8} : b ≤ 0x7f ↔ b.toNat < 128 := UInt8.le_iff_toNat_le.trans Nat.lt_succ_iff.symm

theorem getSlice_pre {ε : Type} {e : ε} {pre l : Bytes} {k n : Nat} (hn : n ≤ l.length - k) (hk : k ≤ l.length) :
    getSlice e (pre ++ l) (pre.length + k) (pre.length + k + n) = .ok ((l.drop k).take n) := by
  rw [getSlice, if_pos ⟨Nat.le_add_right _ _, by rw [List.length_append]; omega⟩, Nat.add_sub_cancel_left, ← List.drop_drop,
    List.drop_left' rfl]

theorem valueLength_eq_ok {pre l : Bytes} {start n : Nat} : valueLength (pre ++ l) pre.length = .ok (start, n) ↔
    ∃ h rest, Length ValueForm n h ∧ l = h ++ rest ∧ start = pre.length + h.length := by
  have hfirst : (pre ++ l)[pre.length]? = l[0]? := getElem?_pre pre l 0
  constructor
  · intro hr
    unfold valueLength at hr
    rw [bind_eq_ok] at hr
    obtain ⟨b, hb, hr⟩ := hr
    rw [present_eq_ok, hfirst] at hb
    obtain ⟨l, rfl⟩ : ∃ l', l = b :: l' := by
      cases l with
      | nil => cases hb
      | cons c l => cases hb; exact ⟨l, rfl⟩
    dsimp only at hr
    split at hr
    · rename_i hle
      cases hr
      exact ⟨[b], l, .short b (le_127.mp hle), rfl, rfl⟩
    split at hr
    · rename_i he
      subst he
      rw [bind_eq_ok] at hr
      obtain ⟨c, hc, hr⟩ := hr
      rw [present_eq_ok, getElem?_pre, List.getElem?_cons_succ] at hc
      cases l with
      | nil => cases hc
      | cons d l =>
        cases hc
        split at hr
        · cases hr
        · rename_i hmin
          cases hr
          exact ⟨[0x81, c], l, .one c (.inl ⟨rfl, Nat.not_lt.mp hmin⟩), rfl, rfl⟩
    split at hr
    · rename_i he
      subst he
      rw [bind_eq_ok] at hr
      obtain ⟨bytes, hbytes, hr⟩ := hr
      obtain ⟨pre', rest, hsplit, hlen, htwo⟩ := getSlice_eq_ok.mp hbytes
      have hl : l = bytes ++ rest := by
        have hd := congrArg (List.drop (pre.length + 1)) hsplit
        rwa [← List.drop_drop, List.drop_left' rfl, List.drop_left' hlen] at hd
      match bytes, htwo, hr with
      | [c, d], _, hr =>
        change (if ¬(256 ≤ c.toNat * 256 + d.toNat ∧ c.toNat * 256 + d.toNat ≤ maxSod) then fail () else _) = _ at hr
        split at hr
        · cases hr
        · rename_i hbounds
          cases hr
          rw [hl]
          exact ⟨[0x82, c, d], rest, .two c d (.inr ⟨rfl, not_not.mp hbounds⟩), rfl, rfl⟩
    · cases hr
  · rintro ⟨h, rest, hl, rfl, rfl⟩
    unfold valueLength
    rw [hfirst]
    cases hl with
    | short b h => exact if_pos (le_127.mpr h)
    | one b h =>
      have hmin : ¬b.toNat < 128 := Nat.not_lt.mpr (h.elim And.right fun h => absurd h.1 (by decide))
      change (present _ (some (0x81 : UInt8)) >>= _) = _
      rw [present, ok_bind]
      dsimp only
      rw [if_neg (show ¬(0x81 : UInt8) ≤ 0x7f by decide), if_pos rfl, getElem?_pre]
      exact if_neg hmin
    | two high low h =>
      have hbounds := h.elim (fun h => absurd h.1 (by decide)) And.right
      change (present _ (some (0x82 : UInt8)) >>= _) = _
      rw [present, ok_bind]
      dsimp only
      rw [if_neg (show ¬(0x82 : UInt8) ≤ 0x7f by decide), if_neg (show ¬(0x82 : UInt8) = 0x81 by decide), if_pos rfl,
        getSlice_pre (show 2 ≤ ([0x82, high, low] ++ rest).length - 1 by simp) (show 1 ≤ ([0x82, high, low] ++ rest).length by simp)]
      exact if_neg (not_not.mpr hbounds)

/-! ## One field -/

/-- A value behind a header of a known length. -/
theorem getSlice_header {ε : Type} {e : ε} {head l v : Bytes} {n : Nat} :
    getSlice e (head ++ l) head.length (head.length + n) = .ok v ↔ ∃ rest, l = v ++ rest ∧ v.length = n := by
  rw [getSlice_eq_ok]
  constructor
  · rintro ⟨pre, rest, he, hl, hn⟩
    exact ⟨rest, (List.append_inj he hl.symm).2, hn⟩
  · rintro ⟨rest, rfl, hn⟩
    exact ⟨head, rest, rfl, rfl, hn⟩

/-- The tag and the length of a field of a licence. -/
def LicenseHeader (tag : UInt8) (n : Nat) (head : Bytes) : Prop :=
  isPadding tag = false ∧ ∃ h, Length LicenseForm n h ∧ head = tag :: h

theorem licenseField_eq_ok {fields fields' : List (UInt8 × Bytes)} {bytes rest : Bytes} :
    licenseField fields bytes = .ok (fields', rest) ↔
      (bytes ≠ [] ∧ bytes.all isPadding = true ∧ fields = fields' ∧ rest = []) ∨
        ∃ tag head v, LicenseHeader tag v.length head ∧ bytes = head ++ (v ++ rest) ∧ tag ∉ fields.map Prod.fst ∧
          fields ++ [(tag, v)] = fields' := by
  cases bytes with
  | nil =>
    refine iff_of_false (fun h => by cases h) ?_
    rintro (⟨h, -⟩ | ⟨tag, head, v, ⟨-, h, -, rfl⟩, he, -⟩)
    · exact h rfl
    · cases he
  | cons t l =>
    have hindex : (index (t :: l) 0 : Except (Stop CardFailure) UInt8) = .ok t := rfl
    unfold licenseField
    rw [hindex, ok_bind]
    by_cases hp : isPadding t = true
    · rw [if_pos hp]
      constructor
      · intro h
        split at h
        · rename_i hall
          cases h
          exact .inl ⟨List.cons_ne_nil _ _, hall, rfl, rfl⟩
        · cases h
      · rintro (⟨-, hall, rfl, rfl⟩ | ⟨tag, head, v, ⟨hno, h, -, rfl⟩, he, -⟩)
        · exact if_pos hall
        · rw [List.cons_append, List.cons.injEq] at he
          rw [he.1, hno] at hp
          cases hp
    · rw [if_neg hp]
      constructor
      · intro h
        simp only [bind_eq_ok, Prod.exists, insertNew_eq_ok, licenseLength_eq_ok, pure_eq_ok, Prod.mk.injEq] at h
        obtain ⟨start, n, ⟨h, l, hlen, rfl, rfl⟩, v, hv, fields', ⟨hnew, rfl⟩, rest, hrest, rfl, rfl⟩ := h
        have hhead : (t :: h).length = 1 + h.length := Nat.add_comm _ _
        rw [← List.cons_append, ← hhead] at hv
        obtain ⟨rest, rfl, rfl⟩ := getSlice_header.mp hv
        have hsize : (t :: h ++ v).length = 1 + h.length + v.length := by rw [List.length_append, hhead]
        have hsliced := slice_rest (ε := CardFailure) rest hsize
        rw [List.append_assoc, List.cons_append] at hsliced
        rw [hsliced] at hrest
        cases hrest
        exact .inr ⟨t, t :: h, v, ⟨Bool.eq_false_iff.mpr hp, h, hlen, rfl⟩, rfl, hnew, rfl⟩
      · rintro (⟨-, hall, -⟩ | ⟨tag, head, v, ⟨hno, h, hlen, rfl⟩, he, hnew, rfl⟩)
        · rw [List.all_cons, Bool.and_eq_true] at hall
          exact absurd hall.1 hp
        · rw [List.cons_append, List.cons.injEq] at he
          obtain ⟨rfl, rfl⟩ := he
          have hhead : (t :: h).length = 1 + h.length := Nat.add_comm _ _
          have hsize : (t :: h ++ v).length = 1 + h.length + v.length := by rw [List.length_append, hhead]
          have hlength := licenseLength_eq_ok (t := t).mpr ⟨h, v ++ rest, hlen, rfl, rfl⟩
          have hvalue : getSlice bad (t :: (h ++ (v ++ rest))) (1 + h.length) (1 + h.length + v.length) = .ok v := by
            rw [← List.cons_append, ← hhead]
            exact getSlice_header.mpr ⟨rest, rfl, rfl⟩
          have hrest : (slice (t :: (h ++ (v ++ rest))) (1 + h.length + v.length) (t :: (h ++ (v ++ rest))).length :
              Except (Stop CardFailure) Bytes) = .ok rest := by
            have hsliced := slice_rest (ε := CardFailure) rest hsize
            rwa [List.append_assoc, List.cons_append] at hsliced
          rw [hlength, ok_bind]
          dsimp only
          rw [hvalue, ok_bind, insertNew_eq_ok.mpr ⟨hnew, rfl⟩, ok_bind, hrest]
          rfl

/-- The bytes of a tag behind its first one, of which only the last is below 128. -/
inductive Continued : Bytes → Prop where
  | last (b : UInt8) (h : b.toNat < 128) : Continued [b]
  | more (b : UInt8) (bs : Bytes) (h : ¬b.toNat < 128) (hs : Continued bs) : Continued (b :: bs)

theorem tagTail_eq_ok {left : Nat} {pre l : Bytes} {tag t i : Nat} : tagTail (pre ++ l) left pre.length tag = .ok (t, i) ↔
    ∃ bs rest, Continued bs ∧ bs.length ≤ left ∧ l = bs ++ rest ∧ bs.foldl (fun n b => n * 256 + b.toNat) tag = t ∧
      i = pre.length + bs.length := by
  induction left generalizing pre l tag with
  | zero =>
    refine iff_of_false (fun h => by cases h) ?_
    rintro ⟨bs, rest, hs, hl, -⟩
    cases hs with
    | last b h => cases hl
    | more b bs h hs => cases hl
  | succ left ih =>
    have hfirst : (pre ++ l)[pre.length]? = l[0]? := getElem?_pre pre l 0
    unfold tagTail
    rw [hfirst]
    cases l with
    | nil =>
      refine iff_of_false (fun h => by cases h) ?_
      rintro ⟨bs, rest, hs, -, he, -⟩
      cases hs with
      | last b h => cases he
      | more b bs h hs => cases he
    | cons b l =>
      have hpre : pre ++ b :: l = (pre ++ [b]) ++ l := by rw [List.append_assoc, List.singleton_append]
      have hlen : pre.length + 1 = (pre ++ [b]).length := by rw [List.length_append, List.length_singleton]
      change (present _ (some b) >>= _) = _ ↔ _
      rw [present, ok_bind]
      dsimp only
      by_cases hb : b < 128
      · rw [if_pos hb, pure_eq_ok, Prod.mk.injEq]
        constructor
        · rintro ⟨rfl, rfl⟩
          exact ⟨[b], l, .last b (lt_128.mp hb), by simp, rfl, rfl, rfl⟩
        · rintro ⟨bs, rest, hs, -, he, rfl, rfl⟩
          cases hs with
          | last c h =>
            rw [List.singleton_append, List.cons.injEq] at he
            rw [he.1]
            exact ⟨rfl, rfl⟩
          | more c bs h hs =>
            rw [List.cons_append, List.cons.injEq] at he
            exact absurd (lt_128.mp hb) (he.1 ▸ h)
      · rw [if_neg hb, hpre, hlen, ih]
        constructor
        · rintro ⟨bs, rest, hs, hl, rfl, rfl, rfl⟩
          refine ⟨b :: bs, rest, .more b bs (fun h => hb (lt_128.mpr h)) hs, Nat.succ_le_succ hl, rfl, rfl, ?_⟩
          simp only [List.length_append, List.length_cons, List.length_nil]
          omega
        · rintro ⟨bs, rest, hs, hl, he, rfl, rfl⟩
          cases hs with
          | last c h =>
            rw [List.singleton_append, List.cons.injEq] at he
            exact absurd (lt_128.mpr h) (he.1 ▸ hb)
          | more c bs h hs =>
            rw [List.cons_append, List.cons.injEq] at he
            obtain ⟨rfl, rfl⟩ := he
            refine ⟨bs, rest, hs, Nat.le_of_succ_le_succ hl, rfl, rfl, ?_⟩
            simp only [List.length_append, List.length_cons, List.length_nil]
            omega

/-- A tag of one byte, or of up to four. -/
def Tag (ts : Bytes) : Prop := ∃ first more, ts = first :: more ∧
  (first.toNat % 32 ≠ 31 ∧ more = [] ∨ first.toNat % 32 = 31 ∧ more.length ≤ 3 ∧ Continued more)

/-- The tag and the length of a field of a signature file. -/
def TlvHeader (tag n : Nat) (head : Bytes) : Prop := ∃ ts h, Tag ts ∧ number ts = tag ∧ Length AnyForm n h ∧ head = ts ++ h

theorem number_cons (first : UInt8) (more : Bytes) : number (first :: more) = more.foldl (fun n b => n * 256 + b.toNat) first.toNat := by
  rw [number, List.foldl_cons, Nat.zero_mul, Nat.zero_add]

/-- The tag of a text, and where it ends. -/
theorem tag_eq_ok {first : UInt8} {l : Bytes} {tag i : Nat} :
    tlvTag (first :: l) first = .ok (tag, i) ↔ ∃ ts rest, Tag ts ∧ number ts = tag ∧ first :: l = ts ++ rest ∧ i = ts.length := by
  unfold tlvTag
  by_cases hf : first.toNat % 32 = 31
  · rw [if_pos hf, show first :: l = [first] ++ l from rfl, show 1 = [first].length from rfl, tagTail_eq_ok]
    constructor
    · rintro ⟨bs, rest, hs, hl, rfl, rfl, rfl⟩
      exact ⟨first :: bs, rest, ⟨first, bs, rfl, .inr ⟨hf, hl, hs⟩⟩, number_cons first bs, rfl, Nat.add_comm _ _⟩
    · rintro ⟨ts, rest, ⟨first', more, rfl, htag⟩, rfl, he, rfl⟩
      rw [List.singleton_append, List.cons_append, List.cons.injEq] at he
      obtain ⟨rfl, rfl⟩ := he
      obtain ⟨hno, -⟩ | ⟨-, hl, hs⟩ := htag
      · exact absurd hf hno
      · exact ⟨more, rest, hs, hl, rfl, (number_cons first more).symm, Nat.add_comm _ _⟩
  · rw [if_neg hf, Except.ok.injEq, Prod.mk.injEq]
    constructor
    · rintro ⟨rfl, rfl⟩
      exact ⟨[first], l, ⟨first, [], rfl, .inl ⟨hf, rfl⟩⟩, number_one first, rfl, rfl⟩
    · rintro ⟨ts, rest, ⟨first', more, rfl, htag⟩, rfl, he, rfl⟩
      rw [List.cons_append, List.cons.injEq] at he
      obtain ⟨rfl, -⟩ := he
      obtain ⟨-, rfl⟩ | ⟨hyes, -⟩ := htag
      · exact ⟨(number_one first).symm, rfl⟩
      · exact absurd hyes hf

theorem Tag.ne_nil {ts : Bytes} (h : Tag ts) : ts ≠ [] := by
  obtain ⟨first, more, rfl, -⟩ := h
  exact List.cons_ne_nil _ _

theorem tlv_eq_ok {bytes v rest : Bytes} {tag : Nat} :
    tlv bytes = .ok (tag, v, rest) ↔ ∃ head, TlvHeader tag v.length head ∧ bytes = head ++ (v ++ rest) := by
  cases bytes with
  | nil =>
    refine iff_of_false (fun h => by cases h) ?_
    rintro ⟨-, ⟨ts, h, hts, -, -, rfl⟩, he⟩
    rw [List.append_assoc] at he
    exact hts.ne_nil (List.append_eq_nil_iff.mp he.symm).1
  | cons first l =>
    have hfirst : (first :: l)[0]? = some first := rfl
    simp only [tlv, hfirst, present, ok_bind]
    constructor
    · intro h
      simp only [bind_eq_ok, Prod.exists, tag_eq_ok, pure_eq_ok, Prod.mk.injEq] at h
      obtain ⟨tag, i, ⟨ts, l', hts, rfl, he, rfl⟩, start, n, hlen, v, hv, rest, hrest, rfl, rfl, rfl⟩ := h
      rw [he] at hlen hv hrest ⊢
      obtain ⟨h, l', hl, rfl, rfl⟩ := tlvLength_eq_ok.mp hlen
      rw [← List.append_assoc, ← List.length_append] at hv
      obtain ⟨rest, rfl, rfl⟩ := getSlice_header.mp hv
      have hsize : (ts ++ h ++ v).length = ts.length + h.length + v.length := by simp only [List.length_append]
      have hsliced := slice_rest (ε := VerificationError) rest hsize
      rw [List.append_assoc, List.append_assoc] at hsliced
      rw [hsliced] at hrest
      cases hrest
      exact ⟨ts ++ h, ⟨ts, h, hts, rfl, hl, rfl⟩, by rw [List.append_assoc]⟩
    · rintro ⟨-, ⟨ts, h, hts, rfl, hl, rfl⟩, he⟩
      rw [List.append_assoc] at he
      have hsize : (ts ++ h ++ v).length = ts.length + h.length + v.length := by simp only [List.length_append]
      have hvalue : getSlice VerificationError.invalidEvidence (ts ++ (h ++ (v ++ rest))) (ts.length + h.length)
          (ts.length + h.length + v.length) = .ok v := by
        rw [← List.append_assoc, ← List.length_append]
        exact getSlice_header.mpr ⟨rest, rfl, rfl⟩
      have hrest := slice_rest (ε := VerificationError) rest hsize
      rw [List.append_assoc, List.append_assoc] at hrest
      rw [tag_eq_ok.mpr ⟨ts, h ++ (v ++ rest), hts, rfl, he, rfl⟩, ok_bind]
      dsimp only
      rw [he, tlvLength_eq_ok.mpr ⟨h, v ++ rest, hl, rfl, rfl⟩, ok_bind]
      dsimp only
      rw [hvalue, ok_bind, hrest]
      rfl

/-- A value that is read has the shortest length in front of it. -/
theorem value_eq_ok {data tag body : Bytes} {pos next : Nat} : value data pos tag = .ok (body, next) ↔
    ∃ pre h rest, Length ValueForm body.length h ∧ data = pre ++ (tag ++ (h ++ (body ++ rest))) ∧ pre.length = pos ∧
      next = pos + tag.length + h.length + body.length := by
  unfold value
  dsimp only
  constructor
  · intro hr
    rw [bind_eq_ok] at hr
    obtain ⟨found, hfound, hr⟩ := hr
    split at hr
    · cases hr
    rename_i hne
    obtain rfl : found = tag := not_not.mp hne
    obtain ⟨pre, l, rfl, rfl, -⟩ := getSlice_eq_ok.mp hfound
    simp only [bind_eq_ok, Prod.exists, pure_eq_ok, Prod.mk.injEq] at hr
    obtain ⟨start, n, hlen, body, hbody, rfl, rfl⟩ := hr
    rw [← List.append_assoc, ← List.length_append] at hlen
    obtain ⟨h, l', hl, rfl, rfl⟩ := valueLength_eq_ok.mp hlen
    rw [← List.append_assoc, ← List.append_assoc, ← List.length_append] at hbody
    obtain ⟨rest, rfl, rfl⟩ := getSlice_header.mp hbody
    exact ⟨pre, h, rest, hl, rfl, rfl, by simp only [List.length_append]⟩
  · rintro ⟨pre, h, rest, hl, rfl, rfl, rfl⟩
    have hfound : getSlice () (pre ++ (tag ++ (h ++ (body ++ rest)))) pre.length (pre.length + tag.length) = .ok tag :=
      getSlice_eq_ok.mpr ⟨pre, _, rfl, rfl, rfl⟩
    have hlength : valueLength (pre ++ (tag ++ (h ++ (body ++ rest)))) (pre.length + tag.length) =
        .ok (pre.length + tag.length + h.length, body.length) := by
      rw [← List.append_assoc, ← List.length_append]
      exact valueLength_eq_ok.mpr ⟨h, body ++ rest, hl, rfl, rfl⟩
    have hbody : getSlice () (pre ++ (tag ++ (h ++ (body ++ rest)))) (pre.length + tag.length + h.length)
        (pre.length + tag.length + h.length + body.length) = .ok body := by
      rw [← List.append_assoc, ← List.append_assoc, ← List.length_append, ← List.length_append]
      exact getSlice_header.mpr ⟨rest, rfl, rfl⟩
    rw [hfound, ok_bind, if_neg (not_not.mpr rfl), hlength, ok_bind]
    dsimp only
    rw [hbody]
    rfl

end Mikaki.Identity.Tlv
