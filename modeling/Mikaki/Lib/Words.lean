import Mathlib

/-!
# Unsigned words

Sums of `u64` as the standard library of Rust has them: `saturatingAdd` stops
at the largest word, `checkedAdd` fails above it. What is compared is compared
as a natural number.
-/

namespace Words

def top : UInt64 := UInt64.ofNat (2 ^ 64 - 1)

def saturatingAdd (a b : UInt64) : UInt64 := if a.toNat + b.toNat < 2 ^ 64 then a + b else top

def checkedAdd (a b : UInt64) : Option UInt64 := if a.toNat + b.toNat < 2 ^ 64 then some (a + b) else none

def saturatingSub (a b : UInt64) : UInt64 := if b ≤ a then a - b else 0

variable {a b c : UInt64}

theorem toNat_add (h : a.toNat + b.toNat < 2 ^ 64) : (a + b).toNat = a.toNat + b.toNat := by
  rw [UInt64.toNat_add, Nat.mod_eq_of_lt h]

@[simp] theorem toNat_saturatingAdd (a b : UInt64) : (saturatingAdd a b).toNat = min (a.toNat + b.toNat) (2 ^ 64 - 1) := by
  unfold saturatingAdd
  by_cases h : a.toNat + b.toNat < 2 ^ 64
  · rw [if_pos h, toNat_add h]
    omega
  · rw [if_neg h]
    have htop : top.toNat = 2 ^ 64 - 1 := rfl
    omega

@[simp] theorem toNat_saturatingSub (a b : UInt64) : (saturatingSub a b).toNat = a.toNat - b.toNat := by
  unfold saturatingSub
  by_cases h : b ≤ a
  · rw [if_pos h, UInt64.toNat_sub_of_le _ _ h]
  · rw [if_neg h]
    have hlt := UInt64.lt_iff_toNat_lt.mp (UInt64.not_le.mp h)
    have hzero : (0 : UInt64).toNat = 0 := rfl
    omega

theorem checkedAdd_eq_some : checkedAdd a b = some c ↔ c.toNat = a.toNat + b.toNat := by
  unfold checkedAdd
  by_cases h : a.toNat + b.toNat < 2 ^ 64
  · rw [if_pos h, Option.some.injEq, ← UInt64.toNat_inj, toNat_add h]
    exact eq_comm
  · rw [if_neg h]
    have hc := c.toNat_lt
    exact ⟨(fun he => by cases he), fun he => by omega⟩

end Words
