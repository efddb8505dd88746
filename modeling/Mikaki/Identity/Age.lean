import Mikaki.Identity.ClaimProfile
import Mikaki.Mdoc.Timestamps

/-!
# Ages

A person has an age from its birthday on, in UTC. Who was born on a leap day
has a birthday on the first of March of the other years.
-/

namespace Mikaki.Identity

open Gregorian (Date days ofDays leap)

/-! ## Civil ages -/

/-- The date of a text. -/
def civil (birthdate : String) : Date := ⟨(splitDate birthdate).1, (splitDate birthdate).2.1, (splitDate birthdate).2.2⟩

/-- The day of an instant, in UTC. -/
def dayOf (time : Nat) : Nat := 719528 + time / 86400

/-- The day of the birthday at an age. -/
def birthday (birth : Date) (age : Nat) : Nat :=
  let date : Date := ⟨birth.year + age, birth.month, birth.day⟩
  if date.Valid then days date else days ⟨birth.year + age, 3, 1⟩

/-- The years between two dates, less one before the birthday of the year. -/
def civilAge (birth today : Date) : Int :=
  if today.month < birth.month ∨ today.month = birth.month ∧ today.day < birth.day then (today.year : Int) - birth.year - 1
  else (today.year : Int) - birth.year

theorem le_civilAge {birth today : Date} {age : Nat} :
    (age : Int) ≤ civilAge birth today ↔ ¬today.Before ⟨birth.year + age, birth.month, birth.day⟩ := by
  unfold civilAge Date.Before
  dsimp only
  split <;> omega

/-- Only February has a length that depends on the year. -/
theorem monthDays_eq {m : Nat} (h : m ≠ 2) (b b' : Bool) : Gregorian.monthDays b m = Gregorian.monthDays b' m := by
  unfold Gregorian.monthDays
  split <;> first | rfl | exact absurd rfl h

theorem monthDays_changes {b b' : Bool} {m d : Nat} (h : d ≤ Gregorian.monthDays b m) (h' : ¬d ≤ Gregorian.monthDays b' m) :
    m = 2 ∧ d = 29 ∧ b' = false := by
  have hm : m = 2 := by
    by_contra hne
    exact h' (by rwa [monthDays_eq hne b' b])
  subst hm
  cases b <;> cases b' <;> simp [Gregorian.monthDays] at h h' ⊢ <;> omega

/-- A date that exists in a year and not in another one is a leap day. -/
theorem leap_day {birth : Date} (hb : birth.Valid) {year : Nat} (h : ¬(⟨year, birth.month, birth.day⟩ : Date).Valid) :
    birth.month = 2 ∧ birth.day = 29 ∧ leap year = false := by
  have hday : ¬birth.day ≤ Gregorian.monthDays (leap year) birth.month := fun hday => h ⟨hb.1, hday⟩
  exact monthDays_changes hb.2 hday

/-- An age is reached on its birthday. -/
theorem birthday_le {birth today : Date} (hb : birth.Valid) (ht : today.Valid) (age : Nat) :
    birthday birth age ≤ days today ↔ (age : Int) ≤ civilAge birth today := by
  rw [le_civilAge, birthday]
  split
  · rename_i hv
    rw [← Gregorian.days_lt ht hv, Nat.not_lt]
  · rename_i hv
    obtain ⟨hm, hd, hl⟩ := leap_day hb hv
    have hmarch : (⟨birth.year + age, 3, 1⟩ : Date).Valid := ⟨Nat.le_refl 1, show 1 ≤ 31 by decide⟩
    rw [← Nat.not_lt, Gregorian.days_lt ht hmarch, not_iff_not]
    -- no day is between the last of February and the first of March
    have hlast : today.year = birth.year + age → today.month = 2 → today.day ≤ 28 := by
      intro hy hm
      have hday := ht.2
      rw [hy, hm, hl] at hday
      exact hday
    simp only [Date.Before, hm, hd]
    have hfirst := ht.1
    omega

/-! ## The predicate -/

theorem daysIn_eq {y m : Nat} (h₁ : 1 ≤ m) (h₂ : m ≤ 12) : daysIn y m = Gregorian.monthDays (leap y) m := by
  have hl : (y % 4 = 0 ∧ (y % 100 ≠ 0 ∨ y % 400 = 0)) ↔ leap y = true := by
    simp [leap]
  unfold daysIn
  simp only [hl]
  generalize leap y = b
  have all : ∀ b : Bool, ∀ m < 13, 1 ≤ m →
      (if m = 2 then (if b = true then 29 else 28) else if m ∈ [4, 6, 9, 11] then 30 else 31) = Gregorian.monthDays b m := by
    decide
  exact all b m (Nat.lt_succ_of_le h₂) h₁

theorem civil_valid {birthdate : String} (h : validDate birthdate) : (civil birthdate).Valid := by
  obtain ⟨-, -, -, -, -, hm, hm', hd, hd'⟩ := h
  refine ⟨hd, ?_⟩
  rw [daysIn_eq hm hm'] at hd'
  exact hd'

theorem dateLt_iff {a b : Date} : dateLt (a.year, a.month, a.day) (b.year, b.month, b.day) = true ↔ a.Before b := by
  simp [dateLt, Date.Before]

/-- The first second that the calendar of the certificates does not have. -/
def endOfTime : Nat := 253402300800

theorem year_lt {time : Nat} (h : time < endOfTime) : (ofDays (dayOf time)).year < 10000 := by
  have : dayOf time < 3652425 := by
    unfold dayOf endOfTime at *
    omega
  exact (Mdoc.year_spec (Nat.le_add_right _ _) this).2

section
variable [Calendar]

/-- An instant before the year 10000 has the day of UTC, and a later one has none. -/
structure Utc : Prop where
  day : ∀ {time}, time < endOfTime → ∃ t, Calendar.fromUnix time = some t ∧ (⟨t.year, t.month, t.day⟩ : Date) = ofDays (dayOf time)
  none : ∀ {time}, endOfTime ≤ time → Calendar.fromUnix time = none

variable {birthdate : String} {time threshold : Nat}

theorem ageOver_iff (h : Utc) (hb : validDate birthdate) (ht : time < endOfTime) :
    ageOver birthdate time threshold = some true ↔ (threshold : Int) ≤ civilAge (civil birthdate) (ofDays (dayOf time)) := by
  obtain ⟨t, hf, hd⟩ := h.day ht
  have hy := year_lt ht
  rw [le_civilAge, ageOver, if_pos hb, hf, ← hd]
  rw [← hd] at hy
  have hbirth : dateLt (t.year, t.month, t.day) (splitDate birthdate) = true ↔ (⟨t.year, t.month, t.day⟩ : Date).Before (civil birthdate) :=
    dateLt_iff (a := ⟨t.year, t.month, t.day⟩) (b := civil birthdate)
  have hage : dateLt (t.year, t.month, t.day) ((civil birthdate).year + threshold, (civil birthdate).month, (civil birthdate).day) = true ↔
      (⟨t.year, t.month, t.day⟩ : Date).Before ⟨(civil birthdate).year + threshold, (civil birthdate).month, (civil birthdate).day⟩ :=
    dateLt_iff (a := ⟨t.year, t.month, t.day⟩) (b := ⟨(civil birthdate).year + threshold, (civil birthdate).month, (civil birthdate).day⟩)
  simp only [Option.bind_some]
  rw [← hage]
  change (if dateLt _ (splitDate birthdate) = true then none else if (civil birthdate).year + threshold < 65536 then some (!dateLt _
    ((civil birthdate).year + threshold, (civil birthdate).month, (civil birthdate).day)) else none) = some true ↔ _
  split
  · rename_i hlt
    -- not born yet, and so before every birthday
    refine iff_of_false (fun e => by cases e) (not_not.mpr (hage.mpr ?_))
    have := hbirth.mp hlt
    unfold Date.Before at this ⊢
    dsimp only at this ⊢
    omega
  split
  · rw [Option.some.injEq, Bool.not_eq_true', Bool.not_eq_true]
  · rename_i hover
    refine iff_of_false (fun e => by cases e) (not_not.mpr (hage.mpr (.inl ?_)))
    have hyear : t.year < 10000 := hy
    change t.year < (civil birthdate).year + threshold
    omega

/-- Ages are whole: the predicate is the civil age, it holds from the birthday on, and with an age it holds for each lower one. -/
theorem age_over (h : Utc) (birthdate : String) (hb : validDate birthdate) :
    (∀ time threshold, time < endOfTime → (ageOver birthdate time threshold = some true ↔
        (threshold : Int) ≤ civilAge (civil birthdate) (ofDays (dayOf time)))) ∧
      (∀ time threshold, time < endOfTime → (ageOver birthdate time threshold = some true ↔
        birthday (civil birthdate) threshold ≤ dayOf time)) ∧
      (∀ time time' threshold, time ≤ time' → time' < endOfTime → ageOver birthdate time threshold = some true →
        ageOver birthdate time' threshold = some true) ∧
      ∀ time threshold threshold', threshold' ≤ threshold → ageOver birthdate time threshold = some true →
        ageOver birthdate time threshold' = some true := by
  have hday : ∀ {time threshold}, time < endOfTime →
      (ageOver birthdate time threshold = some true ↔ birthday (civil birthdate) threshold ≤ dayOf time) := by
    intro time threshold ht
    obtain ⟨hd, hv⟩ := Gregorian.days_ofDays (dayOf time)
    rw [ageOver_iff h hb ht, ← birthday_le (civil_valid hb) hv, hd]
  refine ⟨fun time threshold ht => ageOver_iff h hb ht, fun time threshold ht => hday ht, ?_, ?_⟩
  · intro time time' threshold hle ht' ho
    have hdays : dayOf time ≤ dayOf time' := Nat.add_le_add_left (Nat.div_le_div_right hle) _
    exact (hday ht').mpr (Nat.le_trans ((hday (Nat.lt_of_le_of_lt hle ht')).mp ho) hdays)
  · intro time threshold threshold' hle ho
    have ht : time < endOfTime := by
      by_contra hno
      rw [ageOver, if_pos hb, h.none (Nat.not_lt.mp hno)] at ho
      cases ho
    rw [ageOver_iff h hb ht] at ho ⊢
    omega

end

theorem gregorian_utc : @Utc Mdoc.gregorian := by
  let _ := Mdoc.gregorian
  refine ⟨fun {time} ht => ?_, fun {time} ht => ?_⟩
  · exact ⟨_, if_pos ht, rfl⟩
  · exact if_neg (Nat.not_lt.mpr ht)

/-- The birthday of a leap day in another year. -/
theorem age_over_leap : @ageOver Mdoc.gregorian "2004-02-29" 1646092800 18 = some true :=
  ((@age_over Mdoc.gregorian gregorian_utc "2004-02-29" (by decide +kernel)).1 1646092800 18 (by decide)).mpr (by decide +kernel)

/-- Behind the last second of the calendar there is no answer. -/
theorem age_over_end : @ageOver Mdoc.gregorian "2000-01-01" (endOfTime - 1) 18 = some true ∧
    @ageOver Mdoc.gregorian "2000-01-01" endOfTime 18 = none ∧
    (18 : Int) ≤ civilAge (civil "2000-01-01") (ofDays (dayOf endOfTime)) := by
  decide +kernel

end Mikaki.Identity
