import Mathlib

/-!
# Tables

A table is a partial function from keys to rows. Rows are added under free keys
and rewritten in place; `Grows R` says that every row is still there, related
to what it was by `R`.
-/

namespace Table

variable {κ α : Type*}

/-- The table with the row `a` under `k`. -/
def put [DecidableEq κ] (t : κ → Option α) (k : κ) (a : α) : κ → Option α := fun j => if j = k then some a else t j

def All (P : κ → α → Prop) (t : κ → Option α) : Prop := ∀ k a, t k = some a → P k a

def Grows (R : α → α → Prop) (t u : κ → Option α) : Prop := ∀ k a, t k = some a → ∃ b, u k = some b ∧ R a b

/-- `free` where no row is under `k`, and `taken` where there is one. -/
def ifFree {β : Type*} (t : κ → Option α) (k : κ) (taken free : β) : β :=
  match t k with
  | some _ => taken
  | none => free

theorem ifFree_cases {β : Type*} {P : β → Prop} {t : κ → Option α} {k : κ} {taken free : β} (ht : P taken)
    (hf : t k = none → P free) : P (ifFree t k taken free) := by
  unfold ifFree
  split
  · exact ht
  · rename_i hk; exact hf hk

theorem All.none (P : κ → α → Prop) : All P fun _ => Option.none := fun _ _ h => by cases h

theorem All.mono {P Q : κ → α → Prop} {t : κ → Option α} (h : All P t) (hq : ∀ k a, P k a → Q k a) : All Q t :=
  fun k a e => hq k a (h k a e)

section
variable {R : α → α → Prop} {t u v : κ → Option α}

theorem Grows.refl (hr : ∀ a, R a a) (t : κ → Option α) : Grows R t t := fun _ a h => ⟨a, h, hr a⟩

theorem Grows.trans (ht : ∀ {a b c}, R a b → R b c → R a c) (h₁ : Grows R t u) (h₂ : Grows R u v) : Grows R t v := by
  intro k a h
  obtain ⟨b, hb, hab⟩ := h₁ k a h
  obtain ⟨c, hc, hbc⟩ := h₂ k b hb
  exact ⟨c, hc, ht hab hbc⟩

end

section
variable [DecidableEq κ] {P : κ → α → Prop} {R : α → α → Prop} {t : κ → Option α} {k : κ} {a b : α}

@[simp] theorem put_self : put t k a k = some a := if_pos rfl

theorem put_other {j : κ} (h : j ≠ k) : put t k a j = t j := if_neg h

theorem All.put (h : All P t) (ha : P k a) : All P (put t k a) := by
  intro j b hj
  by_cases e : j = k
  · subst e
    rw [put_self] at hj
    cases hj; exact ha
  · rw [put_other e] at hj
    exact h j b hj

theorem Grows.put_new (hr : ∀ a, R a a) (hk : t k = none) : Grows R t (put t k a) := by
  intro j b hj
  have e : j ≠ k := by rintro rfl; rw [hk] at hj; cases hj
  exact ⟨b, by rw [put_other e, hj], hr b⟩

theorem Grows.put_old (hr : ∀ a, R a a) (hk : t k = some a) (hab : R a b) : Grows R t (put t k b) := by
  intro j c hj
  by_cases e : j = k
  · subst e
    cases hk.symm.trans hj
    exact ⟨b, put_self, hab⟩
  · exact ⟨c, by rw [put_other e, hj], hr c⟩

end

end Table
