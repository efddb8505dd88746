import Mathlib

/-!
# The Gregorian calendar

Every day of the years from 0 on has a number. `days` counts the days before a
date; `ofDays` is the date of a number, and the two are inverse to each other.
-/

namespace Gregorian

def leap (year : Nat) : Bool := year % 4 == 0 && (year % 100 != 0 || year % 400 == 0)

def yearDays (leap : Bool) : Nat := if leap then 366 else 365

/-- The days of the months, and none of a number that is no month. -/
def monthDays (leap : Bool) : Nat → Nat
  | 1 | 3 | 5 | 7 | 8 | 10 | 12 => 31
  | 4 | 6 | 9 | 11 => 30
  | 2 => if leap then 29 else 28
  | _ => 0

@[ext] structure Date where
  year : Nat
  month : Nat
  day : Nat
  deriving DecidableEq

def Date.Valid (d : Date) : Prop := 1 ≤ d.day ∧ d.day ≤ monthDays (leap d.year) d.month

instance : DecidablePred Date.Valid := fun d => inferInstanceAs (Decidable (1 ≤ d.day ∧ d.day ≤ monthDays (leap d.year) d.month))

/-! ## Days of a year -/

/-- The days before a month. -/
def monthStart (leap : Bool) : Nat → Nat
  | 0 => 0
  | m + 1 => monthStart leap m + monthDays leap m

/-- The month and the day of a day of the year, from the month `m` on, of which there are `k`. -/
def monthFrom (leap : Bool) : Nat → Nat → Nat → Nat × Nat
  | 0, m, n => (m, n + 1)
  | k + 1, m, n => if n < monthDays leap m then (m, n + 1) else monthFrom leap k (m + 1) (n - monthDays leap m)

def monthOf (leap : Bool) (n : Nat) : Nat × Nat := monthFrom leap 12 1 n

theorem monthOf_spec : ∀ b : Bool, ∀ n < yearDays b,
    monthStart b (monthOf b n).1 + ((monthOf b n).2 - 1) = n ∧ 1 ≤ (monthOf b n).2 ∧
      (monthOf b n).2 ≤ monthDays b (monthOf b n).1 := by
  decide +kernel

theorem monthStart_spec : ∀ b : Bool, ∀ m < 13, ∀ d < 32, 1 ≤ d → d ≤ monthDays b m →
    monthOf b (monthStart b m + (d - 1)) = (m, d) ∧ monthStart b m + (d - 1) < yearDays b := by
  decide +kernel

theorem monthDays_pos {b : Bool} {m : Nat} (h : 0 < monthDays b m) : 1 ≤ m ∧ m ≤ 12 ∧ monthDays b m ≤ 31 := by
  unfold monthDays at h ⊢
  split at h <;> simp_all
  split <;> omega

/-! ## Years -/

/-- The days before a year. -/
def yearStart (year : Nat) : Nat := 365 * year + (year + 3) / 4 - (year + 99) / 100 + (year + 399) / 400

theorem yearDays_leap (year : Nat) : yearDays (leap year) + (if year % 100 = 0 then 1 else 0) =
    365 + (if year % 4 = 0 then 1 else 0) + if year % 400 = 0 then 1 else 0 := by
  by_cases h4 : year % 4 = 0
  · by_cases h100 : year % 100 = 0
    · by_cases h400 : year % 400 = 0
      · simp [yearDays, leap, h4, h100, h400]
      · simp [yearDays, leap, h4, h100, h400]
    · have h400 : year % 400 ≠ 0 := by omega
      simp [yearDays, leap, h4, h100, h400]
  · have h100 : year % 100 ≠ 0 := by omega
    have h400 : year % 400 ≠ 0 := by omega
    simp [yearDays, leap, h4, h100, h400]

theorem yearStart_succ (year : Nat) : yearStart (year + 1) = yearStart year + yearDays (leap year) := by
  have h4 : (year + 1 + 3) / 4 = (year + 3) / 4 + if year % 4 = 0 then 1 else 0 := by split <;> omega
  have h100 : (year + 1 + 99) / 100 = (year + 99) / 100 + if year % 100 = 0 then 1 else 0 := by split <;> omega
  have h400 : (year + 1 + 399) / 400 = (year + 399) / 400 + if year % 400 = 0 then 1 else 0 := by split <;> omega
  have hsub : (year + 99) / 100 ≤ 365 * year := by omega
  have hone : (if year % 100 = 0 then 1 else 0) ≤ 1 := by split <;> omega
  have hdays := yearDays_leap year
  unfold yearStart
  rw [h4, h100, h400]
  generalize (if year % 100 = 0 then 1 else 0) = a at *
  generalize (if year % 4 = 0 then 1 else 0) = b at *
  generalize (if year % 400 = 0 then 1 else 0) = c at *
  generalize (year + 99) / 100 = d at *
  omega

theorem yearStart_mono {a b : Nat} (h : a ≤ b) : yearStart a ≤ yearStart b := by
  induction h with
  | refl => exact Nat.le_refl _
  | step _ ih =>
    rw [yearStart_succ]
    exact Nat.le_add_right_of_le ih

def yearOf (n : Nat) : Nat :=
  let y := n * 400 / 146097
  if n < yearStart y then y - 1 else if yearStart (y + 1) ≤ n then y + 1 else y

theorem yearOf_spec (n : Nat) : yearStart (yearOf n) ≤ n ∧ n < yearStart (yearOf n + 1) := by
  have hlow : yearStart (n * 400 / 146097 - 1) ≤ n := by
    unfold yearStart
    omega
  have hhigh : n < yearStart (n * 400 / 146097 + 1 + 1) := by
    unfold yearStart
    omega
  unfold yearOf
  dsimp only
  by_cases hlt : n < yearStart (n * 400 / 146097)
  · rw [if_pos hlt]
    have hpos : 0 < n * 400 / 146097 := by
      by_contra hz
      rw [Nat.eq_zero_of_not_pos hz] at hlt
      exact Nat.not_lt_zero _ hlt
    rw [Nat.sub_add_cancel hpos]
    exact ⟨hlow, hlt⟩
  rw [if_neg hlt]
  by_cases hge : yearStart (n * 400 / 146097 + 1) ≤ n
  · rw [if_pos hge]
    exact ⟨hge, hhigh⟩
  · rw [if_neg hge]
    exact ⟨Nat.not_lt.mp hlt, Nat.not_le.mp hge⟩

theorem yearOf_unique {n y : Nat} (h : yearStart y ≤ n ∧ n < yearStart (y + 1)) : yearOf n = y := by
  obtain ⟨hl, hr⟩ := yearOf_spec n
  rcases Nat.lt_trichotomy (yearOf n) y with hlt | he | hgt
  · have hm : yearStart (yearOf n + 1) ≤ yearStart y := yearStart_mono hlt
    omega
  · exact he
  · have hm : yearStart (y + 1) ≤ yearStart (yearOf n) := yearStart_mono hgt
    omega

theorem le_yearOf {n y : Nat} : y ≤ yearOf n ↔ yearStart y ≤ n := by
  obtain ⟨hl, hr⟩ := yearOf_spec n
  constructor
  · intro h
    exact Nat.le_trans (yearStart_mono h) hl
  · intro h
    by_contra hlt
    have hm : yearStart (yearOf n + 1) ≤ yearStart y := yearStart_mono (Nat.not_le.mp hlt)
    omega

/-! ## Dates -/

def days (d : Date) : Nat := yearStart d.year + (monthStart (leap d.year) d.month + (d.day - 1))

def ofDays (n : Nat) : Date :=
  let year := yearOf n
  let (month, day) := monthOf (leap year) (n - yearStart year)
  ⟨year, month, day⟩

theorem days_ofDays (n : Nat) : days (ofDays n) = n ∧ (ofDays n).Valid := by
  obtain ⟨hl, hr⟩ := yearOf_spec n
  rw [yearStart_succ] at hr
  obtain ⟨hn, hd⟩ := monthOf_spec (leap (yearOf n)) (n - yearStart (yearOf n)) (by omega)
  refine ⟨?_, hd⟩
  show yearStart (yearOf n) + _ = n
  rw [show monthStart (leap (ofDays n).year) (ofDays n).month + ((ofDays n).day - 1) = n - yearStart (yearOf n) from hn]
  omega

theorem ofDays_days {d : Date} (h : d.Valid) : ofDays (days d) = d := by
  obtain ⟨year, month, day⟩ := d
  obtain ⟨h1, h2⟩ := h
  dsimp only at h1 h2
  obtain ⟨-, hm, hmax⟩ := monthDays_pos (Nat.lt_of_lt_of_le h1 h2)
  obtain ⟨hmonth, hlt⟩ := monthStart_spec (leap year) month (by omega) day (by omega) h1 h2
  have hyear : yearOf (days ⟨year, month, day⟩) = year := by
    apply yearOf_unique
    rw [yearStart_succ]
    unfold days
    dsimp only
    omega
  unfold ofDays
  dsimp only
  rw [hyear, days, Nat.add_sub_cancel_left]
  dsimp only
  rw [hmonth]

/-- No two dates are one day. -/
theorem days_inj {d e : Date} (hd : d.Valid) (he : e.Valid) (h : days d = days e) : d = e := by
  rw [← ofDays_days hd, h, ofDays_days he]

theorem monthStart_mono {b : Bool} {m m' : Nat} (h : m ≤ m') : monthStart b m ≤ monthStart b m' := by
  induction h with
  | refl => exact Nat.le_refl _
  | step _ ih => exact Nat.le_add_right_of_le ih

/-- Earlier by year, then by month, then by day. -/
def Date.Before (d e : Date) : Prop :=
  d.year < e.year ∨ d.year = e.year ∧ (d.month < e.month ∨ d.month = e.month ∧ d.day < e.day)

instance (d e : Date) : Decidable (d.Before e) := inferInstanceAs (Decidable (_ ∨ _))

theorem Date.before_trichotomy (d e : Date) : d.Before e ∨ d = e ∨ e.Before d := by
  rw [Date.ext_iff]
  unfold Date.Before
  omega

/-- A day of a year is before the next year. -/
theorem days_lt_yearStart {d : Date} (h : d.Valid) : days d < yearStart (d.year + 1) := by
  obtain ⟨-, hm, -⟩ := monthDays_pos (Nat.lt_of_lt_of_le h.1 h.2)
  have hd := (monthDays_pos (Nat.lt_of_lt_of_le h.1 h.2)).2.2
  have hlt := (monthStart_spec (leap d.year) d.month (by omega) d.day (Nat.lt_succ_of_le (Nat.le_trans h.2 hd)) h.1 h.2).2
  rw [yearStart_succ, days]
  omega

theorem days_lt_of_before {d e : Date} (hd : d.Valid) (h : d.Before e) : days d < days e := by
  obtain h | ⟨hy, h | ⟨hm, h⟩⟩ := h
  · have hs : yearStart (d.year + 1) ≤ yearStart e.year := yearStart_mono h
    exact Nat.lt_of_lt_of_le (days_lt_yearStart hd) (Nat.le_trans hs (Nat.le_add_right _ _))
  · have hs : monthStart (leap d.year) (d.month + 1) ≤ monthStart (leap d.year) e.month := monthStart_mono h
    have hlast := hd.2
    have hfirst := hd.1
    rw [monthStart] at hs
    rw [days, days, ← hy]
    omega
  · have hfirst := hd.1
    rw [days, days, ← hy, ← hm]
    omega

/-- Days are numbered in the order of their dates. -/
theorem days_lt {d e : Date} (hd : d.Valid) (he : e.Valid) : days d < days e ↔ d.Before e := by
  constructor
  · intro h
    obtain hb | rfl | hb := d.before_trichotomy e
    · exact hb
    · exact absurd h (Nat.lt_irrefl _)
    · exact absurd (days_lt_of_before he hb) (Nat.lt_asymm h)
  · exact days_lt_of_before hd

end Gregorian
