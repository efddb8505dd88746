import Mikaki.Identity.Tlv

/-!
# Walks over files

The loops that collect the fields of a file. They end at the end of every file,
index no byte that is not there, and take from the canonical text of fields
these fields.
-/

namespace Mikaki.Identity.Tlv

open Checks Slices Spans
open Card (Bytes maxEf FailureCode CardFailure)

/-! ## A licence -/

theorem header_pos {tag : UInt8} {n : Nat} {head : Bytes} (h : LicenseHeader tag n head) : 0 < head.length := by
  obtain ⟨-, h, -, rfl⟩ := h
  exact Nat.succ_pos _

theorem licenseField_less (s : List (UInt8 × Bytes)) (l : Bytes) (s' : List (UInt8 × Bytes)) (rest : Bytes)
    (h : licenseField s l = .ok (s', rest)) : rest.length < l.length := by
  obtain ⟨hne, -, -, rfl⟩ | ⟨tag, head, v, hh, rfl, -⟩ := licenseField_eq_ok.mp h
  · exact List.length_pos_iff.mpr hne
  · have hpos := header_pos hh
    simp only [List.length_append]
    omega

/-- Strict one-byte tags. -/
def licenseFields (bytes : Bytes) : Except (Stop CardFailure) (List (UInt8 × Bytes)) :=
  if bytes.length > maxEf then fail bad else consume licenseField_less [] bytes

/-- The length of a value of a licence. -/
def licenseLengthBytes (n : Nat) : Bytes :=
  if n < 128 then [UInt8.ofNat n] else [0x82, UInt8.ofNat (n / 256), UInt8.ofNat (n % 256)]

def licenseHead (tag : UInt8) (n : Nat) : Bytes := tag :: licenseLengthBytes n

/-! ## A signature file -/

theorem TlvHeader.pos {tag n : Nat} {head : Bytes} (h : TlvHeader tag n head) : 0 < head.length := by
  obtain ⟨ts, h, hts, -, -, rfl⟩ := h
  have hpos := List.length_pos_iff.mpr hts.ne_nil
  rw [List.length_append]
  omega

def MncHeader (tag n : Nat) (head : Bytes) : Prop := (0xdf31 ≤ tag ∧ tag ≤ 0xdf33) ∧ TlvHeader tag n head

theorem mncField_eq_ok {fields fields' : List (Nat × Bytes)} {body rest : Bytes} : mncField fields body = .ok (fields', rest) ↔
    ∃ tag head v, MncHeader tag v.length head ∧ body = head ++ (v ++ rest) ∧ tag ∉ fields.map Prod.fst ∧ fields ++ [(tag, v)] = fields' := by
  unfold mncField
  constructor
  · intro h
    rw [bind_eq_ok] at h
    obtain ⟨⟨tag, v, rest'⟩, htlv, h⟩ := h
    dsimp only at h
    split at h
    · cases h
    rename_i htag
    simp only [bind_eq_ok, insertNew_eq_ok, pure_eq_ok, Prod.mk.injEq] at h
    obtain ⟨_, ⟨hnew, rfl⟩, rfl, rfl⟩ := h
    obtain ⟨head, hh, he⟩ := tlv_eq_ok.mp htlv
    exact ⟨tag, head, v, ⟨not_not.mp htag, hh⟩, he, hnew, rfl⟩
  · rintro ⟨tag, head, v, ⟨htag, hh⟩, he, hnew, rfl⟩
    rw [tlv_eq_ok.mpr ⟨head, hh, he⟩, ok_bind]
    dsimp only
    rw [if_neg (not_not.mpr htag), insertNew_eq_ok.mpr ⟨hnew, rfl⟩]
    rfl

theorem mncField_less (s : List (Nat × Bytes)) (l : Bytes) (s' : List (Nat × Bytes)) (rest : Bytes)
    (h : mncField s l = .ok (s', rest)) : rest.length < l.length := by
  obtain ⟨tag, head, v, hh, rfl, -⟩ := mncField_eq_ok.mp h
  have hpos := hh.2.pos
  simp only [List.length_append]
  omega

def mncFields (body : Bytes) : Except (Stop VerificationError) (List (Nat × Bytes)) := consume mncField_less [] body

def mncSignature (raw : Bytes) : Except (Stop VerificationError) MncSignature := do
  let (tag, body, rest) ← tlv raw
  if tag ≠ 0xff30 ∨ rest.all isPadding = false then fail .invalidEvidence
  else
    let fields ← mncFields body
    let h1 ← field fields 0xdf31 32
    let h2 ← field fields 0xdf32 32
    let sig ← field fields 0xdf33 256
    return { message := [0xdf, 0x31, 32] ++ h1 ++ [0xdf, 0x32, 32] ++ h2, attributesHash := h2, signature := sig }

/-- The shortest text of a length. -/
def lengthBytes (n : Nat) : Bytes :=
  if n < 128 then [UInt8.ofNat n] else if n < 256 then [0x81, UInt8.ofNat n] else [0x82, UInt8.ofNat (n / 256), UInt8.ofNat (n % 256)]

/-- The header of a field whose tag has two bytes. -/
def mncHead (tag n : Nat) : Bytes := UInt8.ofNat (tag / 256) :: UInt8.ofNat (tag % 256) :: lengthBytes n

/-! ## Values one after another -/

/-- The values of tags, and the position behind them. -/
def values (data : Bytes) (pos : Nat) : List Bytes → Except (Stop Unit) (List Bytes × Nat)
  | [] => .ok ([], pos)
  | tag :: tags => do
    let (body, next) ← value data pos tag
    let (bodies, last) ← values data next tags
    return (body :: bodies, last)

def valueHead (tag : Bytes) (n : Nat) : Bytes := tag ++ lengthBytes n

/-! ## Canonical lengths -/

theorem toNat_ofNat {n : Nat} (h : n < 256) : (UInt8.ofNat n).toNat = n := by
  rw [UInt8.toNat_ofNat', Nat.mod_eq_of_lt h]

section
variable {admits : Nat → Nat → Prop} {n : Nat}

theorem Length.of_short (h : n < 128) : Length admits n [UInt8.ofNat n] := by
  have he : (UInt8.ofNat n).toNat = n := toNat_ofNat (by omega)
  have hl : Length admits (UInt8.ofNat n).toNat [UInt8.ofNat n] := .short _ (by rwa [he])
  rwa [he] at hl

theorem Length.of_one (h : n < 256) (ha : admits 1 n) : Length admits n [0x81, UInt8.ofNat n] := by
  have he : (UInt8.ofNat n).toNat = n := toNat_ofNat h
  have hl : Length admits (UInt8.ofNat n).toNat [0x81, UInt8.ofNat n] := .one _ (by rwa [he])
  rwa [he] at hl

theorem Length.of_two (h : n < 65536) (ha : admits 2 n) : Length admits n [0x82, UInt8.ofNat (n / 256), UInt8.ofNat (n % 256)] := by
  have he : (UInt8.ofNat (n / 256)).toNat * 256 + (UInt8.ofNat (n % 256)).toNat = n := by
    rw [toNat_ofNat (by omega), toNat_ofNat (Nat.mod_lt _ (by decide)), Nat.div_add_mod']
  have hl : Length admits ((UInt8.ofNat (n / 256)).toNat * 256 + (UInt8.ofNat (n % 256)).toNat)
      [0x82, UInt8.ofNat (n / 256), UInt8.ofNat (n % 256)] := .two _ _ (by rwa [he])
  rwa [he] at hl

end

theorem length_license {n : Nat} (h : n < 65536) : Length LicenseForm n (licenseLengthBytes n) := by
  unfold licenseLengthBytes
  split
  · exact .of_short ‹_›
  · exact .of_two h rfl

theorem length_any {n : Nat} (h : n < 65536) : Length AnyForm n (lengthBytes n) := by
  unfold lengthBytes
  split
  · exact .of_short ‹_›
  split
  · exact .of_one ‹_› trivial
  · exact .of_two h trivial

/-- There is one length for each number up to the maximum. -/
theorem length_value {n : Nat} {h : Bytes} : Length ValueForm n h ↔ n ≤ maxSod ∧ h = lengthBytes n := by
  constructor
  · intro hl
    cases hl with
    | short b hb =>
      refine ⟨Nat.le_trans (Nat.le_of_lt hb) (by decide), ?_⟩
      rw [lengthBytes, if_pos hb, UInt8.ofNat_toNat]
    | one b hb =>
      have hb : 128 ≤ b.toNat := hb.elim And.right fun h => absurd h.1 (by decide)
      refine ⟨Nat.le_trans (Nat.le_of_lt b.toNat_lt) (by decide), ?_⟩
      rw [lengthBytes, if_neg (Nat.not_lt.mpr hb), if_pos b.toNat_lt, UInt8.ofNat_toNat]
    | two high low hb =>
      obtain ⟨hmin, hmax⟩ := hb.elim (fun h => absurd h.1 (by decide)) And.right
      have hlow := low.toNat_lt
      refine ⟨hmax, ?_⟩
      rw [lengthBytes, if_neg (by omega), if_neg (by omega), show (high.toNat * 256 + low.toNat) / 256 = high.toNat by omega,
        show (high.toNat * 256 + low.toNat) % 256 = low.toNat by omega, UInt8.ofNat_toNat, UInt8.ofNat_toNat]
  · rintro ⟨hmax, rfl⟩
    unfold lengthBytes
    split
    · exact .of_short ‹_›
    split
    · exact .of_one ‹_› (.inl ⟨rfl, by omega⟩)
    · exact .of_two (Nat.lt_of_le_of_lt hmax (by decide)) (.inr ⟨rfl, by omega, hmax⟩)

/-! ## Every index is there -/

theorem getSlice_le {ε : Type} {e : ε} {l v : Bytes} {a n : Nat} (h : getSlice e l a (a + n) = .ok v) : a + n ≤ l.length := by
  obtain ⟨pre, rest, rfl, rfl, rfl⟩ := getSlice_eq_ok.mp h
  simp only [List.length_append]
  omega

theorem inRange_index {ε α : Type} {l : List α} {i : Nat} (h : i < l.length) : InRange (index l i : Except (Stop ε) α) := by
  rw [index, List.getElem?_eq_getElem h]
  exact inRange_ok _

theorem inRange_slice {ε : Type} {l : Bytes} {a b : Nat} (hab : a ≤ b) (hb : b ≤ l.length) :
    InRange (slice l a b : Except (Stop ε) Bytes) := by
  rw [slice_of_le hab hb]
  exact inRange_ok _

theorem inRange_licenseLength (bytes : Bytes) : InRange (licenseLength bytes) := by
  refine (inRange_present _).bind fun length _ => ?_
  split
  · exact inRange_ok _
  split
  · rename_i h
    refine (inRange_index (Nat.lt_of_lt_of_le (by decide) h.2)).bind fun high _ => ?_
    exact (inRange_index (Nat.lt_of_lt_of_le (by decide) h.2)).bind fun low _ => inRange_ok _
  · exact inRange_fail _

theorem inRange_licenseField (s : List (UInt8 × Bytes)) {l : Bytes} (h : l ≠ []) : InRange (licenseField s l) := by
  refine (inRange_index (List.length_pos_iff.mpr h)).bind fun tag _ => ?_
  split
  · split
    · exact inRange_ok _
    · exact inRange_fail _
  · refine (inRange_licenseLength l).bind fun r _ => (inRange_getSlice l _ _).bind fun v hv => inRange_insertNew.bind fun fields _ => ?_
    exact (inRange_slice (getSlice_le hv) (Nat.le_refl _)).bind fun rest _ => inRange_ok _

theorem inRange_licenseFields (bytes : Bytes) : InRange (licenseFields bytes) := by
  unfold licenseFields
  split
  · exact inRange_fail _
  · exact inRange_consume _ (fun s l hl => inRange_licenseField s hl) [] bytes

theorem inRange_tagTail (bytes : Bytes) (left i tag : Nat) : InRange (tagTail bytes left i tag) := by
  induction left generalizing i tag with
  | zero => exact inRange_fail _
  | succ left ih =>
    refine (inRange_present _).bind fun b _ => ?_
    dsimp only
    split
    · exact inRange_ok _
    · exact ih _ _

theorem inRange_tlvLength (bytes : Bytes) (i : Nat) : InRange (tlvLength bytes i) := by
  refine (inRange_present _).bind fun b _ => ?_
  dsimp only
  split
  · exact inRange_ok _
  split
  · exact inRange_fail _
  · rename_i h
    have hle : i + 1 + b.toNat % 128 ≤ bytes.length := Nat.not_lt.mp fun hlt => h (.inr (.inr hlt))
    exact (inRange_slice (Nat.le_add_right _ _) hle).bind fun digits _ => inRange_ok _

theorem inRange_tlv (bytes : Bytes) : InRange (tlv bytes) := by
  refine (inRange_present _).bind fun first _ => ?_
  have htag : InRange (tlvTag bytes first) := by
    unfold tlvTag
    split
    · exact inRange_tagTail _ _ _ _
    · exact inRange_ok _
  refine htag.bind fun t _ => (inRange_tlvLength bytes _).bind fun r _ => (inRange_getSlice bytes _ _).bind fun v hv => ?_
  exact (inRange_slice (getSlice_le hv) (Nat.le_refl _)).bind fun rest _ => inRange_ok _

theorem inRange_mncFields (body : Bytes) : InRange (mncFields body) := by
  refine inRange_consume _ (fun s l _ => (inRange_tlv l).bind fun r _ => ?_) [] body
  dsimp only
  split
  · exact inRange_fail _
  · exact inRange_insertNew.bind fun fields _ => inRange_ok _

theorem inRange_mncSignature (raw : Bytes) : InRange (mncSignature raw) := by
  refine (inRange_tlv raw).bind fun r _ => ?_
  dsimp only
  split
  · exact inRange_fail _
  · refine (inRange_mncFields _).bind fun fields _ => (inRange_present _).bind fun h1 _ => ?_
    exact (inRange_present _).bind fun h2 _ => (inRange_present _).bind fun sig _ => inRange_ok _

theorem inRange_valueLength (data : Bytes) (cursor : Nat) : InRange (valueLength data cursor) := by
  refine (inRange_present _).bind fun first _ => ?_
  dsimp only
  split
  · exact inRange_ok _
  split
  · refine (inRange_present _).bind fun n _ => ?_
    split
    · exact inRange_fail _
    · exact inRange_ok _
  split
  · refine (inRange_getSlice data _ _).bind fun bytes hb => ?_
    obtain ⟨-, -, -, -, htwo⟩ := getSlice_eq_ok.mp hb
    refine (inRange_index (htwo ▸ by decide)).bind fun high _ => (inRange_index (htwo ▸ by decide)).bind fun low _ => ?_
    split
    · exact inRange_fail _
    · exact inRange_ok _
  · exact inRange_fail _

theorem inRange_value (data : Bytes) (pos : Nat) (tag : Bytes) : InRange (value data pos tag) := by
  refine (inRange_getSlice data _ _).bind fun found _ => ?_
  split
  · exact inRange_fail _
  · exact (inRange_valueLength data _).bind fun r _ => (inRange_getSlice data _ _).bind fun body _ => inRange_ok _

/-! ## Whole files -/

def Padding (l : Bytes) : Prop := l.all isPadding = true

theorem license_reads : Reads licenseField LicenseHeader Padding where
  field hh hnew := licenseField_eq_ok.mpr (.inr ⟨_, _, _, hh, rfl, hnew, rfl⟩)
  cases h := by
    obtain ⟨-, hall, he, hrest⟩ | hfield := licenseField_eq_ok.mp h
    · exact .inl ⟨hall, he, hrest⟩
    · exact .inr hfield

theorem mnc_reads : Reads mncField MncHeader fun _ => False where
  field hh hnew := mncField_eq_ok.mpr ⟨_, _, _, hh, rfl, hnew, rfl⟩
  cases h := .inr (mncField_eq_ok.mp h)

theorem licenseFields_ok {bytes : Bytes} {fields : List (UInt8 × Bytes)} (h : licenseFields bytes = .ok fields) :
    (fields.map Prod.fst).Nodup ∧ ∃ padding, Padding padding ∧ Laid LicenseHeader bytes fields padding := by
  unfold licenseFields at h
  split at h
  · cases h
  obtain ⟨hnodup, fields', rest, rfl, hl, hend⟩ := license_reads.laid licenseField_less h
  refine ⟨hnodup List.nodup_nil, rest, hend.elim (fun he => ?_) id, hl⟩
  rw [he]
  exact List.all_nil

theorem licenseFields_written {fields : List (UInt8 × Bytes)} {padding : Bytes} (hn : (fields.map Prod.fst).Nodup)
    (hf : ∀ f ∈ fields, isPadding f.1 = false) (hp : Padding padding) (hmax : (written licenseHead fields ++ padding).length ≤ maxEf) :
    licenseFields (written licenseHead fields ++ padding) = .ok fields := by
  have hsize : ∀ f ∈ fields, f.2.length < 65536 := by
    intro f hm
    have hle : f.2.length ≤ (written licenseHead fields).length := by
      rw [written, List.length_flatMap]
      refine Nat.le_trans ?_ (List.le_sum_of_mem (List.mem_map_of_mem hm))
      rw [List.length_append]
      exact Nat.le_add_left _ _
    rw [List.length_append] at hmax
    have : maxEf < 65536 := by decide
    omega
  have hwritten := license_reads.consume_written licenseField_less licenseHead (s := [])
    (fun f hm => ⟨hf f hm, _, length_license (hsize f hm), rfl⟩) hn padding
  rw [licenseFields, if_neg (Nat.not_lt.mpr hmax), hwritten, List.nil_append]
  by_cases hnil : padding = []
  · rw [hnil, consume_nil]
  · rw [consume_round licenseField_less hnil (licenseField_eq_ok.mpr (.inl ⟨hnil, hp, rfl, rfl⟩)), consume_nil]

theorem mncFields_ok {body : Bytes} {fields : List (Nat × Bytes)} (h : mncFields body = .ok fields) :
    (fields.map Prod.fst).Nodup ∧ Laid MncHeader body fields [] := by
  obtain ⟨hnodup, fields', rest, rfl, hl, hend⟩ := mnc_reads.laid mncField_less h
  obtain rfl : rest = [] := hend.elim id False.elim
  exact ⟨hnodup List.nodup_nil, hl⟩

theorem mncHead_header {tag n : Nat} (ht : 0xdf31 ≤ tag ∧ tag ≤ 0xdf33) (hn : n < 65536) : MncHeader tag n (mncHead tag n) := by
  have hhigh : (UInt8.ofNat (tag / 256)).toNat = 0xdf := by
    rw [toNat_ofNat (by omega)]
    omega
  have hlow : (UInt8.ofNat (tag % 256)).toNat = tag % 256 := toNat_ofNat (Nat.mod_lt _ (by decide))
  refine ⟨ht, [UInt8.ofNat (tag / 256), UInt8.ofNat (tag % 256)], lengthBytes n, ⟨_, _, rfl, .inr ⟨?_, by simp, ?_⟩⟩, ?_, length_any hn, rfl⟩
  · rw [hhigh]
  · exact .last _ (by rw [hlow]; omega)
  · rw [number_two, hhigh, hlow]
    omega

theorem mncFields_written {fields : List (Nat × Bytes)} (hn : (fields.map Prod.fst).Nodup)
    (hf : ∀ f ∈ fields, (0xdf31 ≤ f.1 ∧ f.1 ≤ 0xdf33) ∧ f.2.length < 65536) : mncFields (written mncHead fields) = .ok fields := by
  have hwritten := mnc_reads.consume_written mncField_less mncHead (s := [])
    (fun f hm => mncHead_header (hf f hm).1 (hf f hm).2) hn []
  rw [List.append_nil, List.nil_append, consume_nil] at hwritten
  exact hwritten

theorem value_canonical {data tag body : Bytes} {pos next : Nat} : value data pos tag = .ok (body, next) ↔ body.length ≤ maxSod ∧
    ∃ pre rest, data = pre ++ (valueHead tag body.length ++ (body ++ rest)) ∧ pre.length = pos ∧
      next = pos + (valueHead tag body.length ++ body).length := by
  simp only [value_eq_ok, length_value, valueHead, List.append_assoc, List.length_append]
  constructor
  · rintro ⟨pre, h, rest, ⟨hmax, rfl⟩, rfl, rfl, rfl⟩
    exact ⟨hmax, pre, rest, rfl, rfl, by omega⟩
  · rintro ⟨hmax, pre, rest, rfl, rfl, rfl⟩
    exact ⟨pre, _, rest, ⟨hmax, rfl⟩, rfl, rfl, by omega⟩

/-- One length of a body is read, and no other one. -/
theorem value_unique {pre tag h body rest : Bytes} :
    value (pre ++ (tag ++ (h ++ (body ++ rest)))) pre.length tag = .ok (body, pre.length + (tag.length + (h.length + body.length))) ↔
      body.length ≤ maxSod ∧ h = lengthBytes body.length := by
  simp only [value_canonical, valueHead, List.append_assoc, List.length_append]
  refine and_congr_right fun hmax => ⟨?_, ?_⟩
  · rintro ⟨pre', rest', he, hpre, hnext⟩
    have hhead := (List.append_inj (List.append_inj he hpre.symm).2 rfl).2
    exact (List.append_inj hhead (by omega)).1
  · rintro rfl
    exact ⟨pre, rest, rfl, rfl, rfl⟩

def ValueHeader (tag : Bytes) (n : Nat) (head : Bytes) : Prop := n ≤ maxSod ∧ head = valueHead tag n

/-- Values that are read one after another lie in the data one after another. -/
theorem values_ok {tags bodies : List Bytes} {data : Bytes} {pos next : Nat} (h : values data pos tags = .ok (bodies, next)) :
    Laid ValueHeader (data.drop pos) (tags.zip bodies) (data.drop next) ∧ bodies.length = tags.length := by
  induction tags generalizing pos bodies with
  | nil =>
    cases h
    exact ⟨.done _, rfl⟩
  | cons tag tags ih =>
    simp only [values, bind_eq_ok, Prod.exists, pure_eq_ok, Prod.mk.injEq] at h
    obtain ⟨body, pos', hv, bodies, next, hvs, rfl, rfl⟩ := h
    obtain ⟨hl, hlen⟩ := ih hvs
    obtain ⟨hmax, pre, rest, rfl, rfl, rfl⟩ := value_canonical.mp hv
    refine ⟨?_, congrArg Nat.succ hlen⟩
    rw [← List.drop_drop, List.drop_left' rfl, ← List.append_assoc (valueHead tag body.length), List.drop_left' rfl, List.append_assoc] at hl
    rw [List.drop_left' rfl, List.zip_cons_cons]
    exact .field ⟨hmax, rfl⟩ hl

theorem values_written {fields : List (Bytes × Bytes)} (hf : ∀ f ∈ fields, f.2.length ≤ maxSod) (pre rest : Bytes) :
    values (pre ++ (written valueHead fields ++ rest)) pre.length (fields.map Prod.fst) =
      .ok (fields.map Prod.snd, pre.length + (written valueHead fields).length) := by
  induction fields generalizing pre with
  | nil => rfl
  | cons f fields ih =>
    obtain ⟨tag, body⟩ := f
    obtain ⟨hmax, hf⟩ := List.forall_mem_cons.mp hf
    have hnext := ih hf (pre ++ (valueHead tag body.length ++ body))
    rw [List.length_append, List.append_assoc, List.append_assoc] at hnext
    rw [written_cons, List.append_assoc, List.append_assoc, List.map_cons, values, value_canonical.mpr ⟨hmax, pre, _, rfl, rfl, rfl⟩, ok_bind]
    dsimp only
    rw [hnext, ok_bind]
    dsimp only
    rw [List.length_append, List.length_append, List.length_append]
    simp only [Nat.add_assoc]
    rfl

/-- Every walk ends without an index that is not there; what it takes lies in the file in this order, and it takes the fields of their
canonical text. -/
theorem tlv_walkers :
    ((∀ bytes, InRange (licenseFields bytes)) ∧ (∀ bytes, InRange (tlv bytes)) ∧ (∀ raw, InRange (mncSignature raw)) ∧
      ∀ data pos tag, InRange (value data pos tag)) ∧
    ((∀ bytes fields, licenseFields bytes = .ok fields → (fields.map Prod.fst).Nodup ∧ (∃ padding, Padding padding ∧
        Laid LicenseHeader bytes fields padding) ∧ ∃ spans, InOrder bytes (fields.map Prod.snd) spans) ∧
      (∀ bytes tag v rest, tlv bytes = .ok (tag, v, rest) ↔ ∃ head, TlvHeader tag v.length head ∧ bytes = head ++ (v ++ rest)) ∧
      (∀ body fields, mncFields body = .ok fields → (fields.map Prod.fst).Nodup ∧ Laid MncHeader body fields [] ∧
        ∃ spans, InOrder body (fields.map Prod.snd) spans) ∧
      ∀ data pos tags bodies next, values data pos tags = .ok (bodies, next) → bodies.length = tags.length ∧
        Laid ValueHeader (data.drop pos) (tags.zip bodies) (data.drop next)) ∧
    ((∀ fields padding, (fields.map Prod.fst).Nodup → (∀ f ∈ fields, isPadding f.1 = false) → Padding padding →
        (written licenseHead fields ++ padding).length ≤ maxEf → licenseFields (written licenseHead fields ++ padding) = .ok fields) ∧
      (∀ ts v rest, Tag ts → v.length < 65536 → tlv (ts ++ (lengthBytes v.length ++ (v ++ rest))) = .ok (number ts, v, rest)) ∧
      (∀ fields, (fields.map Prod.fst).Nodup → (∀ f ∈ fields, (0xdf31 ≤ f.1 ∧ f.1 ≤ 0xdf33) ∧ f.2.length < 65536) →
        mncFields (written mncHead fields) = .ok fields) ∧
      ∀ fields pre rest, (∀ f ∈ fields, f.2.length ≤ maxSod) →
        values (pre ++ (written valueHead fields ++ rest)) pre.length (fields.map Prod.fst) =
          .ok (fields.map Prod.snd, pre.length + (written valueHead fields).length)) ∧
    ∀ pre tag h body rest, value (pre ++ (tag ++ (h ++ (body ++ rest)))) pre.length tag =
        .ok (body, pre.length + (tag.length + (h.length + body.length))) ↔ body.length ≤ maxSod ∧ h = lengthBytes body.length := by
  refine ⟨⟨inRange_licenseFields, inRange_tlv, inRange_mncSignature, inRange_value⟩, ⟨?_, fun _ _ _ _ => tlv_eq_ok, ?_, ?_⟩,
    ⟨fun _ _ => licenseFields_written, ?_, fun _ => mncFields_written, fun _ pre rest hf => values_written hf pre rest⟩,
    fun _ _ _ _ _ => value_unique⟩
  · intro bytes fields h
    obtain ⟨hnodup, padding, hp, hl⟩ := licenseFields_ok h
    exact ⟨hnodup, ⟨padding, hp, hl⟩, hl.inOrder⟩
  · intro body fields h
    obtain ⟨hnodup, hl⟩ := mncFields_ok h
    exact ⟨hnodup, hl, hl.inOrder⟩
  · intro data pos tags bodies next h
    obtain ⟨hl, hlen⟩ := values_ok h
    exact ⟨hlen, hl⟩
  · intro ts v rest hts hlen
    exact tlv_eq_ok.mpr ⟨_, ⟨ts, _, hts, rfl, length_any hlen, rfl⟩, (List.append_assoc _ _ _).symm⟩

/-- A licence has no length behind `0x81`, which is the shortest text of this one. -/
theorem tlv_walkers_license :
    licenseFields (written (fun tag n => tag :: lengthBytes n) [(0x12, List.replicate 200 0x21)]) = fail bad ∧
      (tlv (written (fun tag n => tag :: lengthBytes n) [(0x12, List.replicate 200 0x21)])).isOk = true ∧
      licenseFields (written licenseHead [(0x12, List.replicate 200 0x21)]) = .ok [(0x12, List.replicate 200 0x21)] := by
  decide +kernel

end Mikaki.Identity.Tlv
