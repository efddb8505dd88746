import Mikaki.Identity.Age
import Mikaki.Identity.Card

/-!
# The dates of a card

A card has its dates as digits, with the year of the Gregorian calendar or with
a year of an era. Both are read to the text `YYYY-MM-DD`, of which `dateEnd` is
the midnight behind the day.
-/

namespace Mikaki.Identity

open Gregorian (Date days ofDays leap)
open Mdoc (digits padded value)
open Checks
open Wallet (orElse orElse_eq_ok)
open Card (FailureCode CardFailure)

/-! ## The parsers -/

/-- `str::parse::<u32>`. -/
def parseU32 (cs : List Char) : Option Nat :=
  let ds := if cs.head? = some '+' then cs.tail else cs
  if ds ≠ [] ∧ ds.all Char.isDigit ∧ value ds < 2 ^ 32 then some (value ds) else none

/-- The characters from `a` up to `b`. -/
def piece (cs : List Char) (a b : Nat) : List Char := (cs.take b).drop a

def eraBase (s : List Char) : Except String Nat :=
  match s.take 1 with
  | ['1'] => .ok 1867 -- Meiji
  | ['2'] => .ok 1911 -- Taisho
  | ['3'] => .ok 1925 -- Showa
  | ['4'] => .ok 1988 -- Heisei
  | ['5'] => .ok 2018 -- Reiwa
  | era => .error ("Unknown era code: " ++ String.ofList era)

def parseJapaneseEra (s : List Char) : Except String (List Char) := do
  denyIf (s.length ≠ 7) "Invalid Japanese era date length"
  let yearShort ← orElse "Invalid year" (parseU32 (piece s 1 3))
  let month ← orElse "Invalid month" (parseU32 (piece s 3 5))
  let day ← orElse "Invalid day" (parseU32 (piece s 5 7))
  denyIf (¬(1 ≤ month ∧ month ≤ 12) ∨ ¬(1 ≤ day ∧ day ≤ 31)) "Invalid date components"
  let base ← eraBase s
  return padded 4 (base + yearShort) ++ '-' :: padded 2 month ++ '-' :: padded 2 day

/-- The first day that is read of an era, and the day behind its last one. -/
def eraWindow (raw : List Char) : Option (String × String) :=
  match raw.take 1 with
  | ['1'] => some ("1873-01-01", "1912-07-30")
  | ['2'] => some ("1912-07-30", "1926-12-25")
  | ['3'] => some ("1926-12-25", "1989-01-08")
  | ['4'] => some ("1989-01-08", "2019-05-01")
  | ['5'] => some ("2019-05-01", "9999-12-31")
  | _ => none

def bad : CardFailure := FailureCode.invalidData.failure

/-- The year of an era has no zero, and its date is in the window of the era. -/
def eraDate (raw : List Char) : Except CardFailure String := do
  denyIf (piece raw 1 3 = ['0', '0']) bad
  let date ← (parseJapaneseEra raw).mapError fun _ => bad
  let (start, behind) ← (eraWindow raw).elim (.error bad) .ok
  denyIf (String.ofList date < start ∨ ¬String.ofList date < behind) bad
  return String.ofList date

/-- The text of eight or seven digits, which need not be a date. -/
def rawDate (raw : String) : Except CardFailure String :=
  let cs := raw.toList
  match raw.utf8ByteSize with
  | 8 => .ok (String.ofList (cs.take 4 ++ '-' :: piece cs 4 6 ++ '-' :: cs.drop 6))
  | 7 => eraDate cs
  | _ => .error bad

def cardDate (raw : String) : Except CardFailure String := do
  denyIf ((Text.bytes raw).all isAsciiDigit = false) bad
  let date ← rawDate raw
  denyIf (¬validDate date) bad
  return date

/-- The date of a field of a licence. -/
def licenseDate (bytes : List UInt8) : Except CardFailure String := do
  denyIf (bytes.length ≠ 7 ∨ bytes.all isAsciiDigit = false) bad
  let input ← (Text.utf8 bytes).elim (.error bad) .ok
  cardDate input

example : cardDate "4310430" = .ok "2019-04-30" ∧ cardDate "4310501" = .error bad ∧ cardDate "5010501" = .ok "2019-05-01" := by
  decide +kernel

/-! ## Dates as texts -/

/-- The dates that a text can be of. -/
def Accepted (d : Date) : Prop := d.Valid ∧ 1 ≤ d.year ∧ d.year < 10000

instance : DecidablePred Accepted := fun d => inferInstanceAs (Decidable (d.Valid ∧ 1 ≤ d.year ∧ d.year < 10000))

/-- `YYYY-MM-DD` -/
def dashed (d : Date) : List Char := digits 4 d.year ++ '-' :: digits 2 d.month ++ '-' :: digits 2 d.day

def dateString (d : Date) : String := String.ofList (dashed d)

def byteOf (c : Char) : UInt8 := UInt8.ofNat c.toNat

theorem bytes_ascii {cs : List Char} (h : ∀ c ∈ cs, c.toNat < 128) : Text.bytes (String.ofList cs) = cs.map byteOf := Text.bytes_ascii h

theorem toNat_byteOf {c : Char} (h : c.toNat < 128) : (byteOf c).toNat = c.toNat :=
  (UInt8.toNat_ofNat').trans (Nat.mod_eq_of_lt (by omega))

theorem isDigit_byteOf {c : Char} (h : c.toNat < 128) : isAsciiDigit (byteOf c) = c.isDigit := by
  rw [Bool.eq_iff_iff]
  simp [isAsciiDigit, Char.isDigit, UInt8.le_iff_toNat_le, UInt32.le_iff_toNat_le, toNat_byteOf h]

theorem parseDigits_byteOf {cs : List Char} (h : ∀ c ∈ cs, c.toNat < 128) : parseDigits (cs.map byteOf) = value cs := by
  induction cs using List.reverseRecOn with
  | nil => rfl
  | append_singleton cs c ih =>
    have hc := h c (List.mem_append_right _ List.mem_cons_self)
    rw [List.map_append, Mdoc.value_snoc, ← ih fun d hd => h d (List.mem_append_left _ hd), parseDigits, List.foldl_append,
      parseDigits, List.map_singleton, List.foldl_cons, List.foldl_nil, toNat_byteOf hc]

theorem ascii_of_digit {c : Char} (h : c.isDigit = true) : c.toNat < 128 := by
  have hr : 48 ≤ c.toNat ∧ c.toNat ≤ 57 := by simpa [Char.isDigit, UInt32.le_iff_toNat_le] using h
  omega

theorem ascii_digits (k n : Nat) : ∀ c ∈ digits k n, c.toNat < 128 := by
  intro c hc
  exact ascii_of_digit (Mdoc.isDigit_digits k n c hc).1

theorem ascii_dashed (d : Date) : ∀ c ∈ dashed d, c.toNat < 128 := by
  intro c hc
  simp only [dashed, List.cons_append, List.append_assoc, List.mem_append, List.mem_cons] at hc
  obtain hc | rfl | hc | rfl | hc := hc
  all_goals first | exact ascii_digits _ _ _ hc | decide

theorem splitDate_ascii {cs : List Char} (h : ∀ c ∈ cs, c.toNat < 128) :
    splitDate (String.ofList cs) = (value (cs.take 4), value (piece cs 5 7), value (cs.drop 8)) := by
  unfold splitDate piece
  rw [bytes_ascii h]
  dsimp only
  rw [← List.map_take, ← List.map_drop, ← List.map_take, ← List.map_drop, List.drop_take,
    parseDigits_byteOf fun c hc => h c (List.mem_of_mem_take hc),
    parseDigits_byteOf fun c hc => h c (List.mem_of_mem_drop (List.mem_of_mem_take hc)),
    parseDigits_byteOf fun c hc => h c (List.mem_of_mem_drop hc)]

def Fits (d : Date) : Prop := d.year < 10 ^ 4 ∧ d.month < 10 ^ 2 ∧ d.day < 10 ^ 2

instance : DecidablePred Fits := fun d => inferInstanceAs (Decidable (d.year < 10 ^ 4 ∧ d.month < 10 ^ 2 ∧ d.day < 10 ^ 2))

theorem accepted_fits {d : Date} (h : Accepted d) : Fits d :=
  ⟨h.2.2, Mdoc.date_fits h.1⟩

theorem civil_dateString {d : Date} (h : Fits d) : civil (dateString d) = d := by
  obtain ⟨hy, hm, hd⟩ := h
  have hs : splitDate (dateString d) = (d.year, d.month, d.day) := by
    rw [dateString, splitDate_ascii (ascii_dashed d), show (dashed d).take 4 = digits 4 d.year from rfl,
      show piece (dashed d) 5 7 = digits 2 d.month from rfl, show (dashed d).drop 8 = digits 2 d.day from rfl,
      Mdoc.value_digits hy, Mdoc.value_digits hm, Mdoc.value_digits hd]
  rw [civil, hs]

/-- The text of a date is accepted. -/
theorem validDate_dateString {d : Date} (h : Accepted d) : validDate (dateString d) := by
  have hc := civil_dateString (accepted_fits h)
  have hm := Gregorian.monthDays_pos (Nat.lt_of_lt_of_le h.1.1 h.1.2)
  have hb : Text.bytes (dateString d) = (dashed d).map byteOf := bytes_ascii (ascii_dashed d)
  have hdigit : ∀ i < 10, i ≠ 4 → i ≠ 7 → ∃ n < 10, (dashed d)[i]? = some (Char.ofNat (48 + n)) := by
    intro i hi h4 h7
    interval_cases i
    all_goals first | exact absurd rfl h4 | exact absurd rfl h7 | exact ⟨_, Nat.mod_lt _ (by decide), rfl⟩
  refine ⟨by rw [hb]; rfl, ?_, by rw [hb]; rfl, by rw [hb]; rfl, ?_⟩
  · intro i hi h4 h7
    obtain ⟨n, hn, he⟩ := hdigit i hi h4 h7
    have hd := (Mdoc.digit_spec n hn).1
    rw [hb, List.getElem?_map, he, Option.map_some, Option.any_some, isDigit_byteOf (ascii_of_digit hd), hd]
  · change (civil (dateString d)).year ≠ 0 ∧ 1 ≤ (civil (dateString d)).month ∧ (civil (dateString d)).month ≤ 12 ∧
      1 ≤ (civil (dateString d)).day ∧ (civil (dateString d)).day ≤ daysIn (civil (dateString d)).year (civil (dateString d)).month
    rw [hc, daysIn_eq hm.1 hm.2.1]
    exact ⟨Nat.ne_zero_of_lt h.2.1, hm.1, hm.2.1, h.1.1, h.1.2⟩

theorem digits_of {cs : List Char} {k : Nat} (hl : cs.length = k) (h : ∀ c ∈ cs, c.isDigit = true) :
    value cs < 10 ^ k ∧ digits k (value cs) = cs := by
  rw [← hl]
  exact Mdoc.digits_value h

/-- Ten characters of which two are dashes, and the others digits. -/
structure Dashed (cs : List Char) : Prop where
  length : cs.length = 10
  ascii : ∀ c ∈ cs, c.toNat < 128
  dashes : cs[4]? = some '-' ∧ cs[7]? = some '-'
  digits : ∀ i < 10, i ≠ 4 → i ≠ 7 → ∀ c ∈ cs[i]?, c.isDigit = true

theorem ascii_of_valid {text : String} (h : validDate text) : ∀ b ∈ Text.bytes text, b.toNat < 128 := by
  obtain ⟨hl, hdigit, h4, h7, -⟩ := h
  intro b hb
  obtain ⟨i, hi, rfl⟩ := List.getElem_of_mem hb
  by_cases e4 : i = 4
  · subst e4
    rw [List.getElem?_eq_getElem hi, Option.some.injEq] at h4
    rw [h4]
    decide
  by_cases e7 : i = 7
  · subst e7
    rw [List.getElem?_eq_getElem hi, Option.some.injEq] at h7
    rw [h7]
    decide
  have hd := hdigit i (hl ▸ hi) e4 e7
  rw [List.getElem?_eq_getElem hi, Option.any_some] at hd
  simp only [isAsciiDigit, Bool.and_eq_true, decide_eq_true_eq, UInt8.le_iff_toNat_le] at hd
  exact Nat.lt_of_le_of_lt hd.2 (by decide)

theorem dashed_of_valid {text : String} (h : validDate text) : Dashed text.toList := by
  have hcs : ∀ c ∈ text.toList, c.toNat < 128 := fun c hc =>
    (Text.forall_mem_of_bytes (p := fun b => b.toNat < 128) (fun _ hb => hb) (ascii_of_valid h) c hc).1
  have hb : Text.bytes text = text.toList.map byteOf := by
    conv => lhs; rw [← String.ofList_toList (s := text)]
    exact bytes_ascii hcs
  obtain ⟨hl, hdigit, h4, h7, -⟩ := h
  rw [hb] at hl hdigit h4 h7
  have hdash : ∀ {i : Nat}, (text.toList.map byteOf)[i]? = some 45 → text.toList[i]? = some '-' := by
    intro i hi
    rw [List.getElem?_map, Option.map_eq_some_iff] at hi
    obtain ⟨c, hc, he⟩ := hi
    have hn := toNat_byteOf (hcs c (List.mem_of_getElem? hc))
    rw [he] at hn
    have hdash : c = '-' := Char.toNat_inj.mp hn.symm
    rw [hc, hdash]
  refine ⟨by rwa [List.length_map] at hl, hcs, ⟨hdash h4, hdash h7⟩, fun i hi n4 n7 c hc => ?_⟩
  have hd := hdigit i hi n4 n7
  rwa [List.getElem?_map, hc, Option.map_some, Option.any_some, isDigit_byteOf (hcs c (List.mem_of_getElem? hc))] at hd

theorem Dashed.eq {cs : List Char} (h : Dashed cs) : cs = piece cs 0 4 ++ '-' :: piece cs 5 7 ++ '-' :: piece cs 8 10 := by
  have hend : cs.drop 10 = [] := List.drop_eq_nil_of_le (Nat.le_of_eq h.length)
  have hstart : cs = cs.drop 0 := rfl
  simp only [List.append_assoc, List.cons_append, piece]
  rw [← List.append_nil ((cs.take 10).drop 8), ← hend, ← Mdoc.drop_piece cs (show 8 ≤ 10 by decide),
    ← Mdoc.drop_separator h.dashes.2, ← Mdoc.drop_piece cs (show 5 ≤ 7 by decide), ← Mdoc.drop_separator h.dashes.1,
    ← Mdoc.drop_piece cs (show 0 ≤ 4 by decide)]
  exact hstart

/-- A piece between the dashes is the text of its value. -/
theorem Dashed.piece {cs : List Char} (h : Dashed cs) {a b : Nat} (hb : b ≤ 10) (hab : ∀ i, a ≤ i → i < b → i ≠ 4 ∧ i ≠ 7) :
    value (piece cs a b) < 10 ^ (b - a) ∧ Mdoc.digits (b - a) (value (Identity.piece cs a b)) = Identity.piece cs a b := by
  have hl := h.length
  refine digits_of (by rw [Identity.piece, List.length_drop, List.length_take]; omega) fun c hc => ?_
  obtain ⟨i, hi, rfl⟩ := List.getElem_of_mem hc
  unfold Identity.piece at hi ⊢
  rw [List.length_drop, List.length_take] at hi
  obtain ⟨n4, n7⟩ := hab (a + i) (Nat.le_add_right _ _) (by omega)
  rw [List.getElem_drop, List.getElem_take]
  exact h.digits (a + i) (by omega) n4 n7 _ (List.getElem?_eq_getElem _)

/-- Only the texts of dates are accepted. -/
theorem eq_dateString {text : String} (h : validDate text) : Accepted (civil text) ∧ text = dateString (civil text) := by
  have hd := dashed_of_valid h
  obtain ⟨hy, hyear⟩ := hd.piece (a := 0) (b := 4) (by decide) (by omega)
  obtain ⟨-, hmonth⟩ := hd.piece (a := 5) (b := 7) (by decide) (by omega)
  obtain ⟨-, hday⟩ := hd.piece (a := 8) (b := 10) (by decide) (by omega)
  have hsplit : splitDate text = (value (piece text.toList 0 4), value (piece text.toList 5 7), value (piece text.toList 8 10)) := by
    conv => lhs; rw [← String.ofList_toList (s := text)]
    rw [splitDate_ascii hd.ascii, piece, piece, piece, List.drop_zero, List.take_of_length_le (Nat.le_of_eq hd.length)]
  have hcivil : civil text = ⟨value (piece text.toList 0 4), value (piece text.toList 5 7), value (piece text.toList 8 10)⟩ := by
    rw [civil, hsplit]
  have hpositive : (civil text).year ≠ 0 := h.2.2.2.2.1
  refine ⟨⟨civil_valid h, Nat.pos_of_ne_zero hpositive, ?_⟩, ?_⟩
  · rw [hcivil]
    exact hy
  · rw [hcivil, dateString, dashed]
    dsimp only
    rw [hyear, hmonth, hday, ← hd.eq, String.ofList_toList]

theorem validDate_iff {text : String} : validDate text ↔ ∃ d, Accepted d ∧ text = dateString d := by
  constructor
  · intro h
    exact ⟨_, eq_dateString h⟩
  · rintro ⟨d, hd, rfl⟩
    exact validDate_dateString hd

theorem validDate_fits {d : Date} (h : Fits d) : validDate (dateString d) ↔ Accepted d := by
  constructor
  · intro hv
    have ha := (eq_dateString hv).1
    rwa [civil_dateString h] at ha
  · exact validDate_dateString

/-! ## The end of a day -/

/-- The days from the first of March of a year that ends with February, and the days before that. -/
def marchDays (y mp day : Int) : Int :=
  let era := y / 400
  let yo := y - era * 400
  era * 146097 + yo * 365 + yo / 4 - yo / 100 + (153 * mp + 2) / 5 + day - 1 - 719468

theorem marchDays_late {d : Date} (hv : d.Valid) (hm : 2 < d.month) :
    marchDays d.year ((d.month : Int) - 3) d.day = days d - 719528 := by
  have hr := Gregorian.monthDays_pos (Nat.lt_of_lt_of_le hv.1 hv.2)
  have hs : (Gregorian.monthStart (leap d.year) d.month : Int) =
      (if leap d.year = true then 60 else 59) + (153 * ((d.month : Int) - 3) + 2) / 5 := by
    obtain ⟨year, month, day⟩ := d
    dsimp only at hm hr ⊢
    obtain ⟨-, hr, -⟩ := hr
    generalize leap year = b
    interval_cases month <;> cases b <;> decide
  have hy := Gregorian.yearStart_succ d.year
  have hday := hv.1
  have hyear : (if leap d.year = true then 60 else 59 : Int) = (Gregorian.yearDays (leap d.year) : Int) - 306 := by
    cases leap d.year <;> rfl
  rw [hyear] at hs
  unfold days marchDays
  unfold Gregorian.yearStart at hy ⊢
  dsimp only
  omega

theorem marchDays_early {d : Date} (hv : d.Valid) (hy : 1 ≤ d.year) (hm : d.month ≤ 2) :
    marchDays ((d.year : Int) - 1) ((d.month : Int) + 9) d.day = days d - 719528 := by
  have hr := Gregorian.monthDays_pos (Nat.lt_of_lt_of_le hv.1 hv.2)
  have hs : (Gregorian.monthStart (leap d.year) d.month : Int) = (153 * ((d.month : Int) + 9) + 2) / 5 - 306 := by
    obtain ⟨year, month, day⟩ := d
    dsimp only at hm hr ⊢
    obtain ⟨hr, -⟩ := hr
    generalize leap year = b
    interval_cases month <;> cases b <;> decide
  have hday := hv.1
  unfold days marchDays Gregorian.yearStart
  dsimp only
  omega

/-- The end of a day is the midnight before the next one. -/
theorem dateEnd_iff {d : Date} (h : Accepted d) {t : Nat} :
    dateEnd (dateString d) = some t ↔ t % 86400 = 0 ∧ dayOf t = days d + 1 := by
  have hs : splitDate (dateString d) = (d.year, d.month, d.day) := by
    have hc := civil_dateString (accepted_fits h)
    rw [civil, Date.ext_iff] at hc
    exact Prod.ext hc.1 (Prod.ext hc.2.1 hc.2.2)
  have hmarch : marchDays (if d.month ≤ 2 then (d.year : Int) - 1 else d.year)
      (if d.month > 2 then (d.month : Int) - 3 else d.month + 9) d.day = days d - 719528 := by
    by_cases hm : d.month ≤ 2
    · rw [if_pos hm, if_neg (Nat.not_lt.mpr hm)]
      exact marchDays_early h.1 h.2.1 hm
    · rw [if_neg hm, if_pos (Nat.not_le.mp hm)]
      exact marchDays_late h.1 (Nat.not_le.mp hm)
  have he : dateEnd (dateString d) = if 0 ≤ ((days d : Int) - 719528 + 1) * 86400 then
      some (((days d : Int) - 719528 + 1) * 86400).toNat else none := by
    rw [← hmarch, dateEnd, if_pos (validDate_dateString h), hs]
    rfl
  rw [he, dayOf]
  split
  · rw [Option.some.injEq]
    omega
  · refine iff_of_false (fun e => by cases e) ?_
    omega

/-! ## The order of the texts -/

theorem digit_lt : ∀ x < 10, ∀ y < 10, (Char.ofNat (48 + x) < Char.ofNat (48 + y) ↔ x < y) ∧
    (Char.ofNat (48 + x) = Char.ofNat (48 + y) ↔ x = y) := by
  decide

theorem lex_iff {P qa qb ra rb : Nat} {X : Prop} (ha : ra < P) (hb : rb < P) :
    (qa < qb ∨ qa = qb ∧ (ra < rb ∨ ra = rb ∧ X)) ↔ ra + P * qa < rb + P * qb ∨ ra + P * qa = rb + P * qb ∧ X := by
  rcases Nat.lt_trichotomy qa qb with h | rfl | h
  · have hm : P * (qa + 1) ≤ P * qb := Nat.mul_le_mul_left P h
    rw [Nat.mul_succ] at hm
    exact iff_of_true (.inl h) (.inl (by omega))
  · simp
  · have hm : P * (qb + 1) ≤ P * qa := Nat.mul_le_mul_left P h
    rw [Nat.mul_succ] at hm
    refine iff_of_false (by omega) ?_
    rintro (hlt | ⟨he, -⟩)
    · omega
    · omega

theorem digits_mod_lt {k a b : Nat} {r s : List Char} :
    digits k a ++ r < digits k b ++ s ↔ a % 10 ^ k < b % 10 ^ k ∨ a % 10 ^ k = b % 10 ^ k ∧ r < s := by
  induction k with
  | zero => simp [digits, Nat.mod_one]
  | succ k ih =>
    have hpos : 0 < 10 ^ k := Nat.pow_pos (by decide)
    obtain ⟨hlt, he⟩ := digit_lt (a / 10 ^ k % 10) (Nat.mod_lt _ (by decide)) (b / 10 ^ k % 10) (Nat.mod_lt _ (by decide))
    rw [digits, digits, List.cons_append, List.cons_append, List.cons_lt_cons_iff, ih, hlt, he, Nat.mod_pow_succ, Nat.mod_pow_succ]
    exact lex_iff (Nat.mod_lt _ hpos) (Nat.mod_lt _ hpos)

/-- Texts of one length are in the order of their numbers. -/
theorem digits_lt {k a b : Nat} {r s : List Char} (ha : a < 10 ^ k) (hb : b < 10 ^ k) :
    digits k a ++ r < digits k b ++ s ↔ a < b ∨ a = b ∧ r < s := by
  rw [digits_mod_lt, Nat.mod_eq_of_lt ha, Nat.mod_eq_of_lt hb]

/-- Texts are in the order of their dates. -/
theorem dateString_lt {d e : Date} (hd : Fits d) (he : Fits e) : dateString d < dateString e ↔ d.Before e := by
  have hdash : ∀ {r s : List Char}, '-' :: r < '-' :: s ↔ r < s := by simp
  have hlast : digits 2 d.day < digits 2 e.day ↔ d.day < e.day := by
    have hl := digits_lt (r := []) (s := []) hd.2.2 he.2.2
    simpa using hl
  rw [String.lt_iff_toList_lt, dateString, dateString, String.toList_ofList, String.toList_ofList, dashed, dashed,
    List.append_assoc, List.append_assoc, digits_lt hd.1 he.1, List.cons_append, List.cons_append, hdash, digits_lt hd.2.1 he.2.1,
    hdash, hlast]
  rfl

/-! ## Eras -/

/-- The years of an era are counted from the one behind `base`. Its dates are those from `first` on that are before `next`. -/
structure Era where
  code : Char
  base : Nat
  first : Date
  next : Option Date

/-- Of the first era only the dates of the Gregorian calendar are read. -/
def eras : List Era :=
  [⟨'1', 1867, ⟨1873, 1, 1⟩, some ⟨1912, 7, 30⟩⟩,
    ⟨'2', 1911, ⟨1912, 7, 30⟩, some ⟨1926, 12, 25⟩⟩,
    ⟨'3', 1925, ⟨1926, 12, 25⟩, some ⟨1989, 1, 8⟩⟩,
    ⟨'4', 1988, ⟨1989, 1, 8⟩, some ⟨2019, 5, 1⟩⟩,
    ⟨'5', 2018, ⟨2019, 5, 1⟩, none⟩]

def Era.Has (era : Era) (d : Date) : Prop := ¬d.Before era.first ∧ ∀ next ∈ era.next, d.Before next

def Era.write (era : Era) (d : Date) : String :=
  String.ofList (era.code :: (digits 2 (d.year - era.base) ++ (digits 2 d.month ++ digits 2 d.day)))

/-- `YYYYMMDD` -/
def compact (d : Date) : String := String.ofList (digits 4 d.year ++ (digits 2 d.month ++ digits 2 d.day))

/-- What the parser knows of the eras. -/
theorem era_table : ∀ era ∈ eras, eraBase [era.code] = .ok era.base ∧
    eraWindow [era.code] = some (dateString era.first, dateString (era.next.getD ⟨9999, 12, 31⟩)) ∧
    era.base + 99 < 9999 ∧ era.base < era.first.year ∧ Fits era.first ∧ Fits (era.next.getD ⟨9999, 12, 31⟩) ∧
    era.code.isDigit = true := by
  decide +kernel

/-- No other code is of an era. -/
theorem era_of_window {c : Char} {cs : List Char} {w : String × String} (h : eraWindow (c :: cs) = some w) :
    ∃ era ∈ eras, era.code = c := by
  unfold eraWindow at h
  split at h
  all_goals first | cases h; done | skip
  all_goals
    rename_i he
    rw [List.take_succ_cons, List.take_zero, List.cons.injEq] at he
    rw [he.1]
    decide

theorem parseU32_digits {n : Nat} (h : n < 10 ^ 2) : parseU32 (digits 2 n) = some n := by
  have hsign : (digits 2 n).head? ≠ some '+' := by
    intro he
    exact (Mdoc.isDigit_digits 2 n _ (List.mem_of_mem_head? he)).2 rfl
  have hall : (digits 2 n).all Char.isDigit = true := List.all_eq_true.mpr fun c hc => (Mdoc.isDigit_digits 2 n c hc).1
  unfold parseU32
  rw [if_neg hsign]
  dsimp only
  rw [Mdoc.value_digits h]
  exact if_pos ⟨List.cons_ne_nil _ _, hall, by omega⟩

theorem zeros_iff {n : Nat} (h : n < 10 ^ 2) : digits 2 n = ['0', '0'] ↔ n = 0 := by
  constructor
  · intro he
    rw [← Mdoc.value_digits h, he]
    rfl
  · rintro rfl
    rfl

theorem window_iff {era : Era} (h : era ∈ eras) {d : Date} (hd : d.year ≤ era.base + 99) :
    d.Before (era.next.getD ⟨9999, 12, 31⟩) ↔ ∀ next ∈ era.next, d.Before next := by
  have hb := (era_table era h).2.2.1
  cases era.next with
  | none => exact iff_of_true (.inl (Nat.lt_of_le_of_lt hd hb)) fun next hn => by cases hn
  | some next => simp

theorem mapError_eq_ok {α ε ε' : Type} {f : ε → ε'} {x : Except ε α} {a : α} : x.mapError f = .ok a ↔ x = .ok a := by
  cases x with
  | error e => exact ⟨(fun h => by cases h), fun h => by cases h⟩
  | ok b => exact ⟨(fun h => by cases h; rfl), fun h => by cases h; rfl⟩

theorem elim_eq_ok {α ε : Type} {e : ε} {o : Option α} {a : α} : o.elim (.error e) Except.ok = .ok a ↔ o = some a := by
  cases o with
  | none => exact ⟨(fun h => by cases h), fun h => by cases h⟩
  | some b => exact ⟨(fun h => by cases h; rfl), fun h => by cases h; rfl⟩

/-- The seven digits of a year of an era, a month and a day. -/
def eraDigits (code : Char) (yy mm dd : Nat) : List Char := code :: (digits 2 yy ++ (digits 2 mm ++ digits 2 dd))

section
variable {era : Era} {yy mm dd : Nat} (he : era ∈ eras) (hy : yy < 10 ^ 2) (hm : mm < 10 ^ 2) (hd : dd < 10 ^ 2)

include he hy hm hd in
theorem parseJapaneseEra_eq_ok {cs : List Char} : parseJapaneseEra (eraDigits era.code yy mm dd) = .ok cs ↔
    (1 ≤ mm ∧ mm ≤ 12) ∧ (1 ≤ dd ∧ dd ≤ 31) ∧ dashed ⟨era.base + yy, mm, dd⟩ = cs := by
  obtain ⟨hbase, -, hmax, -⟩ := era_table era he
  have hyear : era.base + yy < 10 ^ 4 := by omega
  have h1 : piece (eraDigits era.code yy mm dd) 1 3 = digits 2 yy := rfl
  have h2 : piece (eraDigits era.code yy mm dd) 3 5 = digits 2 mm := rfl
  have h3 : piece (eraDigits era.code yy mm dd) 5 7 = digits 2 dd := rfl
  have h4 : eraBase (eraDigits era.code yy mm dd) = .ok era.base := hbase
  have hl : ¬(eraDigits era.code yy mm dd).length ≠ 7 := not_not.mpr rfl
  simp only [parseJapaneseEra, h1, h2, h3, h4, parseU32_digits hy, parseU32_digits hm, parseU32_digits hd, orElse, ok_bind,
    check_bind_eq_ok, denyIf_eq_ok, hl, not_false_eq_true, true_and, not_or, not_not, pure_eq_ok, Mdoc.padded_eq hyear,
    Mdoc.padded_eq hm, Mdoc.padded_eq hd, and_assoc]
  rfl

include he hy hm hd in
theorem eraDate_eq_ok {text : String} : eraDate (eraDigits era.code yy mm dd) = .ok text ↔
    (1 ≤ mm ∧ mm ≤ 12) ∧ (1 ≤ dd ∧ dd ≤ 31) ∧ yy ≠ 0 ∧ era.Has ⟨era.base + yy, mm, dd⟩ ∧
      dateString ⟨era.base + yy, mm, dd⟩ = text := by
  obtain ⟨-, hwindow, hmax, -, hfirst, hnext, -⟩ := era_table era he
  have h1 : piece (eraDigits era.code yy mm dd) 1 3 = digits 2 yy := rfl
  have h4 : eraWindow (eraDigits era.code yy mm dd) = some (dateString era.first, dateString (era.next.getD ⟨9999, 12, 31⟩)) := hwindow
  have hfits : Fits ⟨era.base + yy, mm, dd⟩ := ⟨show era.base + yy < 10 ^ 4 by omega, hm, hd⟩
  have hhas : ¬(dateString ⟨era.base + yy, mm, dd⟩ < dateString era.first ∨
      ¬dateString ⟨era.base + yy, mm, dd⟩ < dateString (era.next.getD ⟨9999, 12, 31⟩)) ↔ era.Has ⟨era.base + yy, mm, dd⟩ := by
    rw [dateString_lt hfits hfirst, dateString_lt hfits hnext, not_or, not_not,
      window_iff he (show era.base + yy ≤ era.base + 99 by omega)]
    rfl
  simp only [eraDate, bind_eq_ok, exists_unit, denyIf_eq_ok, h1, zeros_iff hy, mapError_eq_ok, parseJapaneseEra_eq_ok he hy hm hd, h4,
    elim_eq_ok, Option.some.injEq, pure_eq_ok]
  constructor
  · rintro ⟨hne, _, ⟨hmonth, hday, rfl⟩, _, rfl, hwin, rfl⟩
    exact ⟨hmonth, hday, hne, hhas.mp hwin, rfl⟩
  · rintro ⟨hmonth, hday, hne, hwin, rfl⟩
    exact ⟨hne, _, ⟨hmonth, hday, rfl⟩, _, rfl, hhas.mpr hwin, rfl⟩

end

/-! ## The dates that are read -/

theorem digits_bytes {raw : String} : (Text.bytes raw).all isAsciiDigit = true ↔ ∀ c ∈ raw.toList, c.isDigit = true := by
  rw [List.all_eq_true]
  constructor
  · intro h c hc
    have hlt : ∀ b, isAsciiDigit b = true → b.toNat < 128 := by
      intro b hb
      simp only [isAsciiDigit, Bool.and_eq_true, decide_eq_true_eq, UInt8.le_iff_toNat_le] at hb
      exact Nat.lt_of_le_of_lt hb.2 (by decide)
    obtain ⟨hascii, hd⟩ := Text.forall_mem_of_bytes hlt h c hc
    exact isDigit_byteOf hascii ▸ hd
  · intro h b hb
    have hascii : ∀ c ∈ raw.toList, c.toNat < 128 := fun c hc => ascii_of_digit (h c hc)
    rw [← String.ofList_toList (s := raw), bytes_ascii hascii] at hb
    obtain ⟨c, hc, rfl⟩ := List.mem_map.mp hb
    rw [isDigit_byteOf (hascii c hc)]
    exact h c hc

theorem cardDate_eq_ok {raw text : String} : cardDate raw = .ok text ↔ (∀ c ∈ raw.toList, c.isDigit = true) ∧ validDate text ∧
    (raw.toList.length = 8 ∧ String.ofList (raw.toList.take 4 ++ '-' :: piece raw.toList 4 6 ++ '-' :: raw.toList.drop 6) = text ∨
      raw.toList.length = 7 ∧ eraDate raw.toList = .ok text) := by
  simp only [cardDate, bind_eq_ok, exists_unit, denyIf_eq_ok, Bool.not_eq_false, digits_bytes, pure_eq_ok, not_not]
  refine and_congr_right fun hdigits => ?_
  unfold rawDate
  rw [Text.size_ascii fun c hc => ascii_of_digit (hdigits c hc)]
  dsimp only
  constructor
  · rintro ⟨date, h, hv, rfl⟩
    refine ⟨hv, ?_⟩
    split at h
    · rename_i hl
      exact .inl ⟨hl, Except.ok.inj h⟩
    · rename_i hl
      exact .inr ⟨hl, h⟩
    · cases h
  · rintro ⟨hv, ⟨hl, h⟩ | ⟨hl, h⟩⟩
    · exact ⟨text, by rw [hl]; exact congrArg Except.ok h, hv, rfl⟩
    · exact ⟨text, by rw [hl]; exact h, hv, rfl⟩

theorem isDigit_piece {cs : List Char} (h : ∀ c ∈ cs, c.isDigit = true) (a b : Nat) : ∀ c ∈ piece cs a b, c.isDigit = true :=
  fun c hc => h c (List.mem_of_mem_take (List.mem_of_mem_drop hc))

theorem digits_piece {cs : List Char} (h : ∀ c ∈ cs, c.isDigit = true) {a b : Nat} (hb : b ≤ cs.length) :
    ∃ n < 10 ^ (b - a), piece cs a b = digits (b - a) n := by
  obtain ⟨hlt, he⟩ := digits_of (k := b - a) (by rw [piece, List.length_drop, List.length_take_of_le hb]) (isDigit_piece h a b)
  exact ⟨_, hlt, he.symm⟩

/-- Eight digits are those of a date, or of what is none. -/
theorem eq_compact {cs : List Char} (h : ∀ c ∈ cs, c.isDigit = true) (hl : cs.length = 8) :
    ∃ d, Fits d ∧ cs = digits 4 d.year ++ (digits 2 d.month ++ digits 2 d.day) := by
  obtain ⟨y, hy, e1⟩ := digits_piece h (a := 0) (b := 4) (by omega)
  obtain ⟨m, hm, e2⟩ := digits_piece h (a := 4) (b := 6) (by omega)
  obtain ⟨d, hd, e3⟩ := digits_piece h (a := 6) (b := 8) (by omega)
  refine ⟨⟨y, m, d⟩, ⟨hy, hm, hd⟩, ?_⟩
  have hend : cs.drop 8 = [] := List.drop_eq_nil_of_le (Nat.le_of_eq hl)
  change cs = digits (4 - 0) y ++ (digits (6 - 4) m ++ digits (8 - 6) d)
  rw [← e1, ← e2, ← e3, piece, piece, piece, ← List.append_nil ((cs.take 8).drop 6), ← hend, ← Mdoc.drop_piece cs (show 6 ≤ 8 by decide),
    ← Mdoc.drop_piece cs (show 4 ≤ 6 by decide), ← Mdoc.drop_piece cs (show 0 ≤ 4 by decide)]
  rfl

theorem eq_eraDigits {cs : List Char} (h : ∀ c ∈ cs, c.isDigit = true) (hl : cs.length = 7) :
    ∃ code yy mm dd, yy < 10 ^ 2 ∧ mm < 10 ^ 2 ∧ dd < 10 ^ 2 ∧ cs = eraDigits code yy mm dd := by
  obtain ⟨y, hy, e1⟩ := digits_piece h (a := 1) (b := 3) (by omega)
  obtain ⟨m, hm, e2⟩ := digits_piece h (a := 3) (b := 5) (by omega)
  obtain ⟨d, hd, e3⟩ := digits_piece h (a := 5) (b := 7) (by omega)
  have hlt : 0 < cs.length := by omega
  refine ⟨cs[0], y, m, d, hy, hm, hd, ?_⟩
  have hend : cs.drop 7 = [] := List.drop_eq_nil_of_le (Nat.le_of_eq hl)
  change cs = cs[0] :: (digits (3 - 1) y ++ (digits (5 - 3) m ++ digits (7 - 5) d))
  rw [← e1, ← e2, ← e3, piece, piece, piece, ← List.append_nil ((cs.take 7).drop 5), ← hend, ← Mdoc.drop_piece cs (show 5 ≤ 7 by decide),
    ← Mdoc.drop_piece cs (show 3 ≤ 5 by decide), ← Mdoc.drop_piece cs (show 1 ≤ 3 by decide)]
  exact List.drop_eq_getElem_cons hlt

/-- An era has this date in one of its first 99 years. -/
def Era.Dates (era : Era) (d : Date) : Prop := era.Has d ∧ d.year ≤ era.base + 99

theorem Era.base_lt {era : Era} (h : era ∈ eras) {d : Date} (hd : era.Has d) : era.base < d.year := by
  have hb := (era_table era h).2.2.2.1
  by_contra hle
  exact hd.1 (.inl (by omega))

theorem isDigit_write {era : Era} (h : era ∈ eras) (d : Date) : ∀ c ∈ (era.write d).toList, c.isDigit = true := by
  have hcode := (era_table era h).2.2.2.2.2.2
  intro c hc
  rw [Era.write, String.toList_ofList, List.mem_cons, List.mem_append, List.mem_append] at hc
  obtain rfl | hc | hc | hc := hc
  · exact hcode
  · exact (Mdoc.isDigit_digits _ _ c hc).1
  · exact (Mdoc.isDigit_digits _ _ c hc).1
  · exact (Mdoc.isDigit_digits _ _ c hc).1

/-- A date is read from its own digits, and from those of an era that has it. -/
theorem cardDate_iff {raw text : String} : cardDate raw = .ok text ↔ ∃ d, Accepted d ∧ text = dateString d ∧
    (raw = compact d ∨ ∃ era ∈ eras, era.Dates d ∧ raw = era.write d) := by
  rw [cardDate_eq_ok]
  constructor
  · rintro ⟨hdigits, hv, ⟨hl, rfl⟩ | ⟨hl, h⟩⟩
    · obtain ⟨d, hd, he⟩ := eq_compact hdigits hl
      rw [he] at hv ⊢
      exact ⟨d, (validDate_fits hd).mp hv, rfl, .inl (String.toList_inj.mp (he.trans String.toList_ofList.symm))⟩
    · obtain ⟨code, yy, mm, dd, hy, hm, hd, he⟩ := eq_eraDigits hdigits hl
      rw [he] at h
      have hw : ∃ w, eraWindow (eraDigits code yy mm dd) = some w := by
        simp only [eraDate, bind_eq_ok, elim_eq_ok] at h
        obtain ⟨-, -, -, -, w, hw, -⟩ := h
        exact ⟨w, hw⟩
      obtain ⟨w, hw⟩ := hw
      obtain ⟨era, hera, rfl⟩ := era_of_window hw
      obtain ⟨-, -, -, hhas, rfl⟩ := (eraDate_eq_ok hera hy hm hd).mp h
      have hfits : Fits ⟨era.base + yy, mm, dd⟩ := by
        have hmax := (era_table era hera).2.2.1
        exact ⟨show era.base + yy < 10 ^ 4 by omega, hm, hd⟩
      refine ⟨_, (validDate_fits hfits).mp hv, rfl, .inr ⟨era, hera, ⟨hhas, ?_⟩, ?_⟩⟩
      · change era.base + yy ≤ era.base + 99
        omega
      · rw [← String.ofList_toList (s := raw), he, Era.write, Nat.add_sub_cancel_left]
        rfl
  · rintro ⟨d, hd, rfl, rfl | ⟨era, hera, ⟨hhas, hmax⟩, rfl⟩⟩
    · refine ⟨fun c hc => ?_, validDate_dateString hd, .inl ⟨by rw [compact, String.toList_ofList]; rfl, ?_⟩⟩
      · rw [compact, String.toList_ofList, List.mem_append, List.mem_append] at hc
        obtain hc | hc | hc := hc
        all_goals exact (Mdoc.isDigit_digits _ _ c hc).1
      · rw [compact, String.toList_ofList]
        rfl
    · have hbase := Era.base_lt hera hhas
      have hr := Gregorian.monthDays_pos (Nat.lt_of_lt_of_le hd.1.1 hd.1.2)
      have hfits := accepted_fits hd
      have hyear : era.base + (d.year - era.base) = d.year := by omega
      refine ⟨isDigit_write hera d, validDate_dateString hd, .inr ⟨by rw [Era.write, String.toList_ofList]; rfl, ?_⟩⟩
      rw [Era.write, String.toList_ofList]
      refine (eraDate_eq_ok hera (show d.year - era.base < 10 ^ 2 by omega) hfits.2.1 hfits.2.2).mpr ?_
      rw [hyear]
      exact ⟨⟨hr.1, hr.2.1⟩, ⟨hd.1.1, Nat.le_trans hd.1.2 hr.2.2⟩, by omega, hhas, rfl⟩

theorem licenseDate_iff {bs : List UInt8} {text : String} : licenseDate bs = .ok text ↔
    ∃ d, Accepted d ∧ text = dateString d ∧ ∃ era ∈ eras, era.Dates d ∧ bs = Text.bytes (era.write d) := by
  simp only [licenseDate, bind_eq_ok, exists_unit, denyIf_eq_ok, not_or, not_not, Bool.not_eq_false, elim_eq_ok, cardDate_iff]
  constructor
  · rintro ⟨⟨hl, hall⟩, input, hu, d, hd, rfl, rfl | ⟨era, hera, hdates, rfl⟩⟩
    · rw [← Text.bytes_utf8 hu, compact] at hl hall
      have hascii : ∀ c ∈ (compact d).toList, c.toNat < 128 := fun c hc => ascii_of_digit (digits_bytes.mp hall c hc)
      rw [compact, String.toList_ofList] at hascii
      rw [bytes_ascii hascii] at hl
      cases hl
    · exact ⟨d, hd, rfl, era, hera, hdates, (Text.bytes_utf8 hu).symm⟩
  · rintro ⟨d, hd, rfl, era, hera, hdates, rfl⟩
    have hdigit := isDigit_write hera d
    refine ⟨⟨?_, digits_bytes.mpr hdigit⟩, era.write d, Text.utf8_bytes _, d, hd, rfl, .inr ⟨era, hera, hdates, rfl⟩⟩
    rw [Era.write, String.toList_ofList] at hdigit
    rw [Era.write, bytes_ascii fun c hc => ascii_of_digit (hdigit c hc)]
    rfl

theorem dateEnd_eq_some {text : String} {t : Nat} :
    dateEnd text = some t ↔ validDate text ∧ t % 86400 = 0 ∧ dayOf t = days (civil text) + 1 := by
  constructor
  · intro h
    have hv : validDate text := by
      by_contra hv
      rw [dateEnd, if_neg hv] at h
      cases h
    obtain ⟨hd, he⟩ := eq_dateString hv
    rw [he, dateEnd_iff hd] at h
    exact ⟨hv, h⟩
  · rintro ⟨hv, h⟩
    obtain ⟨hd, he⟩ := eq_dateString hv
    rw [he, dateEnd_iff hd]
    exact h

theorem dateEnd_eq_none {text : String} (h : validDate text) : dateEnd text = none ↔ (civil text).Before ⟨1969, 12, 31⟩ := by
  have hv := (eq_dateString h).1.1
  have hlast : (⟨1969, 12, 31⟩ : Date).Valid := by decide
  rw [← Gregorian.days_lt hv hlast, show days ⟨1969, 12, 31⟩ = 719527 by decide +kernel, Option.eq_none_iff_forall_ne_some]
  constructor
  · intro hn
    by_contra hlt
    refine hn ((days (civil text) + 1 - 719528) * 86400) (dateEnd_eq_some.mpr ⟨h, ?_, ?_⟩)
    · exact Nat.mul_mod_left _ _
    · rw [dayOf, Nat.mul_div_cancel _ (by decide)]
      omega
  · intro hlt t ht
    have hday := (dateEnd_eq_some.mp ht).2.2
    rw [dayOf] at hday
    omega

/-- A date is read exactly where it exists, and its end is the midnight behind it where that is no earlier than the epoch. -/
theorem expiry_dates (text : String) : (validDate text ↔ ∃ d, Accepted d ∧ text = dateString d) ∧
    (validDate text → text = dateString (civil text)) ∧
    (∀ raw, cardDate raw = .ok text ↔ ∃ d, Accepted d ∧ text = dateString d ∧
      (raw = compact d ∨ ∃ era ∈ eras, era.Dates d ∧ raw = era.write d)) ∧
    (∀ bs, licenseDate bs = .ok text ↔ ∃ d, Accepted d ∧ text = dateString d ∧
      ∃ era ∈ eras, era.Dates d ∧ bs = Text.bytes (era.write d)) ∧
    (∀ t, dateEnd text = some t ↔ validDate text ∧ t % 86400 = 0 ∧ dayOf t = days (civil text) + 1) ∧
    (validDate text → (dateEnd text = none ↔ (civil text).Before ⟨1969, 12, 31⟩)) ∧
    ∀ text' s t, dateEnd text = some s → dateEnd text' = some t →
      (s < t ↔ (civil text).Before (civil text')) ∧ (days (civil text') = days (civil text) + 1 → t = s + 86400) := by
  refine ⟨validDate_iff, fun h => (eq_dateString h).2, fun raw => cardDate_iff, fun bs => licenseDate_iff, fun t => dateEnd_eq_some, dateEnd_eq_none, ?_⟩
  intro text' s t hs ht
  obtain ⟨hv, hs, hd⟩ := dateEnd_eq_some.mp hs
  obtain ⟨hv', ht, hd'⟩ := dateEnd_eq_some.mp ht
  rw [← Gregorian.days_lt (civil_valid hv) (civil_valid hv')]
  unfold dayOf at hd hd'
  constructor
  · omega
  · omega

/-- The end of a day before the epoch has no number. -/
theorem expiry_dates_early : cardDate "3250101" = .ok "1950-01-01" ∧ cardDate "19500101" = .ok "1950-01-01" ∧
    dateEnd "1950-01-01" = none := by
  decide +kernel

end Mikaki.Identity
