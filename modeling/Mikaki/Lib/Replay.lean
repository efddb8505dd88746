import Mathlib

/-!
# Replay stores

A store keeps one row a token until the token can no longer be presented. Old
rows are swept a batch at a time; `Spent` says why a token that was admitted
once is not admitted again: its row is there, or its time is over.
-/

namespace Replay

variable {α κ : Type} [DecidableEq α] (key : α → κ) (retainUntil : α → Nat)

/-- The oldest rows whose time is over, `limit` of them. -/
def overdue (limit now : Nat) (rows : List α) : List α :=
  ((rows.filter fun a => retainUntil a < now).mergeSort fun a b => retainUntil a ≤ retainUntil b).take limit

def sweep (limit now : Nat) (rows : List α) : List α := rows.filter fun a => a ∉ overdue retainUntil limit now rows

theorem sweep_subset (limit now : Nat) (rows : List α) : sweep retainUntil limit now rows ⊆ rows :=
  List.filter_sublist.subset

/-- A row whose time is not over is not swept. -/
theorem mem_sweep {limit now : Nat} {rows : List α} {a : α} (ha : a ∈ rows) (h : now ≤ retainUntil a) :
    a ∈ sweep retainUntil limit now rows := by
  refine List.mem_filter.mpr ⟨ha, decide_eq_true fun hm => ?_⟩
  have hs := List.mem_mergeSort.mp (List.mem_of_mem_take hm)
  have hlt := of_decide_eq_true (List.mem_filter.mp hs).2
  omega

/-- A token of this key and time has its row, or its time is over. -/
def Spent (k : κ) (until_ : Nat) (rows : List α) (now : Nat) : Prop :=
  (∃ a ∈ rows, key a = k ∧ retainUntil a = until_) ∨ until_ < now

variable {key retainUntil} {k : κ} {until_ now later : Nat} {rows more : List α}

omit [DecidableEq α] in
theorem Spent.mono (h : Spent key retainUntil k until_ rows now) (hsub : rows ⊆ more) (hnow : now ≤ later) :
    Spent key retainUntil k until_ more later := by
  rcases h with ⟨a, ha, hk, hr⟩ | h
  · exact .inl ⟨a, hsub ha, hk, hr⟩
  · exact .inr (Nat.lt_of_lt_of_le h hnow)

theorem Spent.sweep (h : Spent key retainUntil k until_ rows now) (limit : Nat) :
    Spent key retainUntil k until_ (Replay.sweep retainUntil limit now rows) now := by
  rcases h with ⟨a, ha, hk, rfl⟩ | h
  · by_cases hr : now ≤ retainUntil a
    · exact .inl ⟨a, mem_sweep retainUntil ha hr, hk, rfl⟩
    · exact .inr (not_le.mp hr)
  · exact .inr h

omit [DecidableEq α] in
/-- Where the key is free, the time of a spent token is over. -/
theorem Spent.over (h : Spent key retainUntil k until_ rows now) (hfree : ∀ a ∈ rows, key a ≠ k) : until_ < now := by
  rcases h with ⟨a, ha, hk, -⟩ | h
  · exact absurd hk (hfree a ha)
  · exact h

omit [DecidableEq α] in
theorem spent_snoc (a : α) : Spent key retainUntil (key a) (retainUntil a) (rows ++ [a]) now :=
  .inl ⟨a, List.mem_append_right _ (List.mem_singleton_self a), rfl, rfl⟩

end Replay
