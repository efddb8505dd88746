import Mikaki.Lib.Gregorian
import Mikaki.Mdoc.Receipt

/-!
# Dates in an mdoc

A time is written as the text of its civil instant, and read back from it. The
numbers of a text are read with a sign where they have one, so that a text with
a plus sign can be read though it is never written.
-/

namespace Mikaki.Mdoc

open Checks Cbor
open Mikaki.Identity
open Mikaki.Identity.Wallet (orElse orElse_eq_ok)

/-! ## Digits -/

def value (cs : List Char) : Nat := cs.foldl (fun n c => n * 10 + (c.toNat - 48)) 0

theorem value_snoc (cs : List Char) (c : Char) : value (cs ++ [c]) = value cs * 10 + (c.toNat - 48) := by
  unfold value
  rw [List.foldl_append]
  rfl

theorem digit_spec : ∀ n < 10, (Char.ofNat (48 + n)).isDigit = true ∧ (Char.ofNat (48 + n)).toNat - 48 = n ∧
    Char.ofNat (48 + n) ≠ '+' := by decide

theorem digit_of_char {c : Char} (h : c.isDigit = true) : ∃ n < 10, c = Char.ofNat (48 + n) := by
  have hr : 48 ≤ c.toNat ∧ c.toNat ≤ 57 := by simpa [Char.isDigit, UInt32.le_iff_toNat_le] using h
  refine ⟨c.toNat - 48, by omega, ?_⟩
  rw [Nat.add_sub_cancel' hr.1, Char.ofNat_toNat]

theorem digits_snoc (k n : Nat) : digits (k + 1) n = digits k (n / 10) ++ [Char.ofNat (48 + n % 10)] := by
  induction k generalizing n with
  | zero => simp [digits]
  | succ k ih =>
    rw [digits, ih, digits, List.cons_append, Nat.div_div_eq_div_mul, ← Nat.pow_succ']

theorem length_digits (k n : Nat) : (digits k n).length = k := by
  induction k with
  | zero => rfl
  | succ k ih => rw [digits, List.length_cons, ih]

theorem isDigit_digits (k n : Nat) : ∀ c ∈ digits k n, c.isDigit = true ∧ c ≠ '+' := by
  induction k with
  | zero => simp [digits]
  | succ k ih =>
    rw [digits]
    intro c hc
    rcases List.mem_cons.mp hc with rfl | hc
    · obtain ⟨hd, -, hne⟩ := digit_spec (n / 10 ^ k % 10) (Nat.mod_lt _ (by decide))
      exact ⟨hd, hne⟩
    · exact ih c hc

theorem value_digits {k n : Nat} (h : n < 10 ^ k) : value (digits k n) = n := by
  induction k generalizing n with
  | zero =>
    rw [Nat.pow_zero, Nat.lt_one_iff] at h
    rw [h]
    rfl
  | succ k ih =>
    rw [digits_snoc, value_snoc, ih (by rw [Nat.pow_succ] at h; omega), (digit_spec (n % 10) (Nat.mod_lt _ (by decide))).2.1]
    omega

/-- A text of digits is the text of its value. -/
theorem digits_value {cs : List Char} (h : ∀ c ∈ cs, c.isDigit = true) :
    value cs < 10 ^ cs.length ∧ digits cs.length (value cs) = cs := by
  induction cs using List.reverseRecOn with
  | nil => exact ⟨by decide, rfl⟩
  | append_singleton cs c ih =>
    obtain ⟨hlt, hd⟩ := ih fun d hd => h d (List.mem_append_left _ hd)
    obtain ⟨n, hn, rfl⟩ := digit_of_char (h c (List.mem_append_right _ List.mem_cons_self))
    rw [value_snoc, (digit_spec n hn).2.1, List.length_append, List.length_singleton, digits_snoc,
      show (value cs * 10 + n) / 10 = value cs by omega, show (value cs * 10 + n) % 10 = n by omega, hd, Nat.pow_succ]
    exact ⟨by omega, rfl⟩

theorem parseU16_digits {k n : Nat} (hk : k ≠ 0) (h : n < 10 ^ k) (hn : n < 65536) : parseU16 (digits k n) = some n := by
  have hne : digits k n ≠ [] := by
    intro he
    rw [← List.length_eq_zero_iff, length_digits] at he
    exact hk he
  have hsign : (digits k n).head? ≠ some '+' := by
    intro he
    exact (isDigit_digits k n _ (List.mem_of_mem_head? he)).2 rfl
  have hall : (digits k n).all Char.isDigit = true := List.all_eq_true.mpr fun c hc => (isDigit_digits k n c hc).1
  unfold parseU16
  rw [if_neg hsign]
  exact (if_pos ⟨hne, hall, by rw [show (digits k n).foldl _ 0 = n from value_digits h]; exact hn⟩).trans
    (congrArg some (value_digits h))

/-- Without a sign, a number that is read was written with all its digits. -/
theorem parseU16_unsigned {cs : List Char} {n : Nat} (h : parseU16 cs = some n) (hs : '+' ∉ cs) :
    n < 10 ^ cs.length ∧ digits cs.length n = cs := by
  have hsign : cs.head? ≠ some '+' := fun he => hs (List.mem_of_mem_head? he)
  unfold parseU16 at h
  rw [if_neg hsign] at h
  dsimp only at h
  split at h
  · rename_i hall
    cases h
    exact digits_value (List.all_eq_true.mp hall.2.1)
  · cases h

/-! ## Texts of an instant -/

theorem padded_eq {k n : Nat} (h : n < 10 ^ k) : padded k n = digits k n := if_pos h

/-- The canonical text of the fields. -/
def canonical (d : DateTime) : List Char :=
  digits 4 d.year ++ '-' :: digits 2 d.month ++ '-' :: digits 2 d.day ++ 'T' :: digits 2 d.hour ++ ':' :: digits 2 d.minutes ++
    ':' :: digits 2 d.seconds ++ ['Z']

def Fits (d : DateTime) : Prop :=
  d.year < 10 ^ 4 ∧ d.month < 10 ^ 2 ∧ d.day < 10 ^ 2 ∧ d.hour < 10 ^ 2 ∧ d.minutes < 10 ^ 2 ∧ d.seconds < 10 ^ 2

/-- An instant and its fields determine each other, and the fields fit the text. -/
structure Civil [Calendar] : Prop where
  toUnix_fromUnix : ∀ {t d}, Calendar.fromUnix t = some d → Calendar.toUnix d = some t
  fromUnix_toUnix : ∀ {t d}, Calendar.toUnix d = some t → Calendar.fromUnix t = some d
  fits : ∀ {t d}, Calendar.fromUnix t = some d → Fits d

theorem dateText_eq {d : DateTime} (h : Fits d) : dateText d = canonical d := by
  obtain ⟨h1, h2, h3, h4, h5, h6⟩ := h
  rw [dateText, padded_eq h1, padded_eq h2, padded_eq h3, padded_eq h4, padded_eq h5, padded_eq h6]
  rfl

theorem ascii_canonical (d : DateTime) : ∀ c ∈ canonical d, c.toNat < 128 ∧ c ≠ '+' := by
  have hdigit : ∀ k n, ∀ c ∈ digits k n, c.toNat < 128 ∧ c ≠ '+' := by
    intro k n c hc
    obtain ⟨hd, hne⟩ := isDigit_digits k n c hc
    have hr : 48 ≤ c.toNat ∧ c.toNat ≤ 57 := by simpa [Char.isDigit, UInt32.le_iff_toNat_le] using hd
    exact ⟨by omega, hne⟩
  intro c hc
  simp only [canonical, List.cons_append, List.append_assoc, List.mem_append, List.mem_cons, List.not_mem_nil, or_false] at hc
  rcases hc with hc | rfl | hc | rfl | hc | rfl | hc | rfl | hc | rfl | hc | rfl
  all_goals first | exact hdigit _ _ _ hc | decide

/-- A text with the separators in their places. -/
structure Shaped (cs : List Char) : Prop where
  length : cs.length = 20
  ascii : ∀ c ∈ cs, c.toNat < 128
  separators : cs[4]? = some '-' ∧ cs[7]? = some '-' ∧ cs[10]? = some 'T' ∧ cs[13]? = some ':' ∧ cs[16]? = some ':' ∧
    cs[19]? = some 'Z'

def part (cs : List Char) (a b : Nat) : Option Nat := parseU16 ((cs.take b).drop a)

section
variable [Calendar]

theorem timestamp_eq_ok {v : Value} {t : Nat} : timestamp v = .ok t ↔ ∃ s d, v = .tag 0 (.text s) ∧ Shaped s.toList ∧
    part s.toList 0 4 = some d.year ∧ part s.toList 5 7 = some d.month ∧ part s.toList 8 10 = some d.day ∧
    part s.toList 11 13 = some d.hour ∧ part s.toList 14 16 = some d.minutes ∧ part s.toList 17 19 = some d.seconds ∧
    Calendar.toUnix d = some t := by
  constructor
  · intro h
    unfold timestamp at h
    split at h
    · rename_i w
      cases w with
      | text s =>
        simp only [bind_eq_ok, exists_unit, orElse_eq_ok, denyIf_eq_ok, asText, Option.some.injEq] at h
        obtain ⟨_, rfl, hshape, year, hy, month, hm, day, hd, hour, hh, minutes, hmin, seconds, hs, ht⟩ := h
        simp only [not_or, Bool.not_eq_false, List.all_eq_true, decide_eq_true_eq, ne_eq, not_not] at hshape
        obtain ⟨hsize, hascii, hseparators⟩ := hshape
        rw [Text.size_ascii hascii] at hsize
        exact ⟨s, ⟨year, month, day, hour, minutes, seconds⟩, rfl, ⟨hsize, hascii, hseparators⟩, hy, hm, hd, hh, hmin, hs, ht⟩
      | _ => cases h
    · cases h
  · rintro ⟨s, d, rfl, ⟨hlen, hascii, hseparators⟩, hy, hm, hd, hh, hmin, hs, ht⟩
    have hsize : s.utf8ByteSize = 20 := (Text.size_ascii hascii).trans hlen
    have hall : (s.toList.all fun c => c.toNat < 128) = true := by simpa using hascii
    obtain ⟨s4, s7, s10, s13, s16, s19⟩ := hseparators
    unfold part at hy hm hd hh hmin hs
    simp only [timestamp, asText, orElse, ok_bind, denyIf, hsize, hall, s4, s7, s10, s13, s16, s19, hy, hm, hd, hh, hmin, hs, ht]
    rfl

theorem date_eq_ok {t : Nat} {v : Value} (h : Civil) :
    date t = .ok v ↔ ∃ d, Calendar.fromUnix t = some d ∧ v = .tag 0 (.text (String.ofList (canonical d))) := by
  simp only [date, bind_eq_ok, orElse_eq_ok, pure_eq_ok]
  constructor
  · rintro ⟨d, hd, rfl⟩
    exact ⟨d, hd, by rw [dateText_eq (h.fits hd)]⟩
  · rintro ⟨d, hd, rfl⟩
    exact ⟨d, hd, by rw [dateText_eq (h.fits hd)]⟩

end

/-! ## Reading what is written -/

theorem shaped_canonical (d : DateTime) : Shaped (canonical d) :=
  ⟨rfl, fun c hc => (ascii_canonical d c hc).1, rfl, rfl, rfl, rfl, rfl, rfl⟩

theorem drop_piece (cs : List Char) {a b : Nat} (h : a ≤ b) : cs.drop a = (cs.take b).drop a ++ cs.drop b := by
  have hsplit := List.take_append_drop (b - a) (cs.drop a)
  rw [List.drop_drop, Nat.add_sub_cancel' h] at hsplit
  rw [List.drop_take]
  exact hsplit.symm

theorem drop_separator {cs : List Char} {i : Nat} {c : Char} (h : cs[i]? = some c) : cs.drop i = c :: cs.drop (i + 1) := by
  obtain ⟨hi, rfl⟩ := List.getElem?_eq_some_iff.mp h
  exact List.drop_eq_getElem_cons hi

/-- A text of this shape is its numbers with the separators between them. -/
theorem Shaped.eq {cs : List Char} (h : Shaped cs) :
    cs = (cs.take 4).drop 0 ++ '-' :: (cs.take 7).drop 5 ++ '-' :: (cs.take 10).drop 8 ++ 'T' :: (cs.take 13).drop 11 ++
      ':' :: (cs.take 16).drop 14 ++ ':' :: (cs.take 19).drop 17 ++ ['Z'] := by
  obtain ⟨s4, s7, s10, s13, s16, s19⟩ := h.separators
  have hend : cs.drop 20 = [] := List.drop_eq_nil_of_le (Nat.le_of_eq h.length)
  have hstart : cs = cs.drop 0 := rfl
  simp only [List.append_assoc, List.cons_append]
  rw [← hend, ← drop_separator s19, ← drop_piece cs (show 17 ≤ 19 by decide), ← drop_separator s16,
    ← drop_piece cs (show 14 ≤ 16 by decide), ← drop_separator s13, ← drop_piece cs (show 11 ≤ 13 by decide), ← drop_separator s10,
    ← drop_piece cs (show 8 ≤ 10 by decide), ← drop_separator s7, ← drop_piece cs (show 5 ≤ 7 by decide), ← drop_separator s4,
    ← drop_piece cs (show 0 ≤ 4 by decide)]
  exact hstart

theorem part_unsigned {cs : List Char} {a b n : Nat} (hl : b ≤ cs.length) (hs : '+' ∉ cs) (h : part cs a b = some n) :
    n < 10 ^ (b - a) ∧ digits (b - a) n = (cs.take b).drop a := by
  have hlen : ((cs.take b).drop a).length = b - a := by rw [List.length_drop, List.length_take_of_le hl]
  have hunsigned := parseU16_unsigned h fun hm => hs (List.mem_of_mem_take (List.mem_of_mem_drop hm))
  rwa [hlen] at hunsigned

section
variable [Calendar]

theorem timestamp_date {t : Nat} {v : Value} (h : Civil) (hdate : date t = .ok v) : timestamp v = .ok t := by
  obtain ⟨d, hd, rfl⟩ := (date_eq_ok h).mp hdate
  obtain ⟨hy, hm, hday, hh, hmin, hs⟩ := h.fits hd
  refine timestamp_eq_ok.mpr ⟨_, d, rfl, ?_, ?_, ?_, ?_, ?_, ?_, ?_, h.toUnix_fromUnix hd⟩ <;> rw [String.toList_ofList]
  · exact shaped_canonical d
  · exact parseU16_digits (by decide) hy (by omega)
  · exact parseU16_digits (by decide) hm (by omega)
  · exact parseU16_digits (by decide) hday (by omega)
  · exact parseU16_digits (by decide) hh (by omega)
  · exact parseU16_digits (by decide) hmin (by omega)
  · exact parseU16_digits (by decide) hs (by omega)

/-- A text in which a number has a plus sign. -/
def Signed (v : Value) : Prop := ∃ s, v = .tag 0 (.text s) ∧ '+' ∈ s.toList

theorem date_timestamp {t : Nat} {v : Value} (h : Civil) (ht : timestamp v = .ok t) : date t = .ok v ↔ ¬Signed v := by
  obtain ⟨s, d, rfl, hshape, hy, hm, hday, hh, hmin, hs, hunix⟩ := timestamp_eq_ok.mp ht
  constructor
  · rintro hdate ⟨_, ⟨rfl⟩, hplus⟩
    obtain ⟨e, -, he⟩ := (date_eq_ok h).mp hdate
    cases he
    rw [String.toList_ofList] at hplus
    exact (ascii_canonical e _ hplus).2 rfl
  · intro hsigned
    have hno : '+' ∉ s.toList := fun hp => hsigned ⟨s, rfl, hp⟩
    refine (date_eq_ok h).mpr ⟨d, h.fromUnix_toUnix hunix, ?_⟩
    have hle : ∀ b ≤ 20, b ≤ s.toList.length := fun b hb => by rw [hshape.length]; exact hb
    have htext : s.toList = canonical d := by
      rw [hshape.eq, ← (part_unsigned (hle 4 (by decide)) hno hy).2, ← (part_unsigned (hle 7 (by decide)) hno hm).2,
        ← (part_unsigned (hle 10 (by decide)) hno hday).2, ← (part_unsigned (hle 13 (by decide)) hno hh).2,
        ← (part_unsigned (hle 16 (by decide)) hno hmin).2, ← (part_unsigned (hle 19 (by decide)) hno hs).2]
      rfl
    rw [← htext, String.ofList_toList]

/-- What is written for an instant is read as that instant, and what is read is the text that would be written, unless a number
of it has a sign. -/
theorem timestamps (h : Civil) :
    (∀ t v, date t = .ok v → timestamp v = .ok t) ∧ ∀ v t, timestamp v = .ok t → (date t = .ok v ↔ ¬Signed v) :=
  ⟨fun _ _ => timestamp_date h, fun _ _ => date_timestamp h⟩

end

/-! ## The calendar of the library -/

open Gregorian (ofDays days leap)

/-- The instants up to the end of the year 9999. -/
@[reducible] def gregorian : Calendar where
  fromUnix t :=
    if t < 253402300800 then
      let d := ofDays (719528 + t / 86400)
      some ⟨d.year, d.month, d.day, t % 86400 / 3600, t % 3600 / 60, t % 60⟩
    else none
  toUnix d :=
    let date : Gregorian.Date := ⟨d.year, d.month, d.day⟩
    if date.Valid ∧ d.hour < 24 ∧ d.minutes < 60 ∧ d.seconds < 60 ∧ 1970 ≤ d.year ∧ d.year < 10000 then
      some ((days date - 719528) * 86400 + d.hour * 3600 + d.minutes * 60 + d.seconds)
    else none

theorem year_spec {n : Nat} (hl : 719528 ≤ n) (hr : n < 3652425) : 1970 ≤ (ofDays n).year ∧ (ofDays n).year < 10000 :=
  ⟨Gregorian.le_yearOf.mpr hl, Nat.not_le.mp fun h => Nat.not_le.mpr hr (Gregorian.le_yearOf.mp h)⟩

theorem date_fits {d : Gregorian.Date} (h : d.Valid) : d.month < 10 ^ 2 ∧ d.day < 10 ^ 2 := by
  obtain ⟨-, hm, hd⟩ := Gregorian.monthDays_pos (Nat.lt_of_lt_of_le h.1 h.2)
  have hday := h.2
  omega

theorem gregorian_eq_some {t : Nat} {d : DateTime} :
    gregorian.fromUnix t = some d ↔ t < 253402300800 ∧ (⟨d.year, d.month, d.day⟩ : Gregorian.Date) = ofDays (719528 + t / 86400) ∧
      d.hour = t % 86400 / 3600 ∧ d.minutes = t % 3600 / 60 ∧ d.seconds = t % 60 := by
  obtain ⟨year, month, day, hour, minutes, seconds⟩ := d
  by_cases ht : t < 253402300800
  · have he : gregorian.fromUnix t = some ⟨(ofDays (719528 + t / 86400)).year, (ofDays (719528 + t / 86400)).month,
        (ofDays (719528 + t / 86400)).day, t % 86400 / 3600, t % 3600 / 60, t % 60⟩ := if_pos ht
    simp only [he, Option.some.injEq, DateTime.mk.injEq, ht, true_and, Gregorian.Date.ext_iff]
    constructor
    · rintro ⟨rfl, rfl, rfl, rfl, rfl, rfl⟩
      exact ⟨⟨rfl, rfl, rfl⟩, rfl, rfl, rfl⟩
    · rintro ⟨⟨rfl, rfl, rfl⟩, rfl, rfl, rfl⟩
      exact ⟨rfl, rfl, rfl, rfl, rfl, rfl⟩
  · have he : gregorian.fromUnix t = none := if_neg ht
    rw [he]
    exact ⟨(fun h => by cases h), fun h => absurd h.1 ht⟩

theorem gregorian_civil : @Civil gregorian := by
  let _ := gregorian
  refine ⟨fun {t d} h => ?_, fun {t d} h => ?_, fun {t d} h => ?_⟩
  · obtain ⟨ht, hdate, hh, hm, hs⟩ := gregorian_eq_some.mp h
    obtain ⟨hdays, hvalid⟩ := Gregorian.days_ofDays (719528 + t / 86400)
    obtain ⟨hy, hy'⟩ := year_spec (n := 719528 + t / 86400) (Nat.le_add_right _ _) (by omega)
    rw [← hdate] at hdays hvalid hy hy'
    have hcond : (⟨d.year, d.month, d.day⟩ : Gregorian.Date).Valid ∧ d.hour < 24 ∧ d.minutes < 60 ∧ d.seconds < 60 ∧
        1970 ≤ d.year ∧ d.year < 10000 := ⟨hvalid, by omega, by omega, by omega, hy, hy'⟩
    refine (if_pos hcond).trans (congrArg some ?_)
    rw [hdays]
    omega
  · have hcond : (⟨d.year, d.month, d.day⟩ : Gregorian.Date).Valid ∧ d.hour < 24 ∧ d.minutes < 60 ∧ d.seconds < 60 ∧
        1970 ≤ d.year ∧ d.year < 10000 := by
      by_contra hno
      have hnone : gregorian.toUnix d = none := if_neg hno
      exact Option.some_ne_none _ (h.symm.trans hnone)
    obtain ⟨hvalid, hh, hm, hs, hy, hy'⟩ := hcond
    have ht : some ((days ⟨d.year, d.month, d.day⟩ - 719528) * 86400 + d.hour * 3600 + d.minutes * 60 + d.seconds) = some t :=
      (if_pos ⟨hvalid, hh, hm, hs, hy, hy'⟩).symm.trans h
    have hdate := Gregorian.ofDays_days hvalid
    have hyear : Gregorian.yearOf (days ⟨d.year, d.month, d.day⟩) = d.year := congrArg Gregorian.Date.year hdate
    have hlow : 719528 ≤ days ⟨d.year, d.month, d.day⟩ := Gregorian.le_yearOf.mp (hyear.symm ▸ hy)
    have hhigh : days ⟨d.year, d.month, d.day⟩ < 3652425 :=
      Nat.not_le.mp fun hge => Nat.not_le.mpr hy' (hyear ▸ Gregorian.le_yearOf.mpr hge)
    generalize days ⟨d.year, d.month, d.day⟩ = n at ht hdate hlow hhigh
    have ht := Option.some.inj ht
    refine gregorian_eq_some.mpr ⟨by omega, ?_, by omega, by omega, by omega⟩
    rw [show 719528 + t / 86400 = n by omega, hdate]
  · obtain ⟨ht, hdate, hh, hm, hs⟩ := gregorian_eq_some.mp h
    obtain ⟨-, hvalid⟩ := Gregorian.days_ofDays (719528 + t / 86400)
    obtain ⟨-, hy⟩ := year_spec (n := 719528 + t / 86400) (Nat.le_add_right _ _) (by omega)
    rw [← hdate] at hvalid hy
    obtain ⟨hmonth, hday⟩ := date_fits hvalid
    exact ⟨hy, hmonth, hday, by omega, by omega, by omega⟩

/-- The last second of a leap day. -/
theorem timestamps_leap :
    @timestamp gregorian (.tag 0 (.text "2024-02-29T23:59:59Z")) = .ok 1709251199 :=
  (@timestamps gregorian gregorian_civil).1 1709251199 _ (by decide +kernel)

/-- A month with a sign is read, and is not what is written. -/
theorem timestamps_signed :
    ¬∀ [Calendar], Civil → ∀ v t, timestamp v = .ok t → date t = .ok v := by
  intro h
  have hdate := @h gregorian gregorian_civil (.tag 0 (.text "2024-+2-29T23:59:59Z")) 1709251199 (by decide +kernel)
  revert hdate
  decide +kernel

end Mikaki.Mdoc
