import Mikaki.Lib.Checks

/-!
# Indexing that may be out of range

A computation over a list that fails with an error of its own, or stops where
it takes an element or a slice that the list does not have. `lift` says that it
does not index, and `InRange` that it never stops there. `consume` is a loop
over what is left of a list.
-/

namespace Slices

open Checks

inductive Stop (ε : Type) where
  | error (e : ε)
  | outOfRange
  deriving DecidableEq

variable {ε α β : Type}

def lift : Except ε α → Except (Stop ε) α
  | .ok a => .ok a
  | .error e => .error (.error e)

def fail (e : ε) : Except (Stop ε) α := .error (.error e)

/-- `l[i]`. -/
def index (l : List α) (i : Nat) : Except (Stop ε) α :=
  match l[i]? with
  | some a => .ok a
  | none => .error .outOfRange

/-- `l[a..b]`. -/
def slice (l : List α) (a b : Nat) : Except (Stop ε) (List α) :=
  if a ≤ b ∧ b ≤ l.length then .ok ((l.drop a).take (b - a)) else .error .outOfRange

def InRange (x : Except (Stop ε) α) : Prop := x ≠ .error .outOfRange

@[simp] theorem lift_ok (a : α) : lift (.ok a : Except ε α) = .ok a := rfl

@[simp] theorem lift_error (e : ε) : lift (.error e : Except ε α) = .error (.error e) := rfl

@[simp] theorem lift_eq_ok {x : Except ε α} {a : α} : lift x = .ok a ↔ x = .ok a := by
  cases x with
  | error e => exact ⟨(fun h => by cases h), fun h => by cases h⟩
  | ok b => exact ⟨fun h => by cases h; rfl, fun h => by cases h; rfl⟩

theorem lift_bind (x : Except ε α) (f : α → Except ε β) : lift (x >>= f) = lift x >>= fun a => lift (f a) := by
  cases x <;> rfl

theorem inRange_ok (a : α) : InRange (.ok a : Except (Stop ε) α) := fun h => by cases h

theorem inRange_fail (e : ε) : InRange (fail e : Except (Stop ε) α) := fun h => by cases h

theorem inRange_lift (x : Except ε α) : InRange (lift x) := by
  cases x with
  | error e => exact inRange_fail e
  | ok a => exact inRange_ok a

theorem index_of_lt {l : List α} {i : Nat} (d : α) (h : i < l.length) :
    (index l i : Except (Stop ε) α) = .ok (l.getD i d) := by
  rw [index, List.getElem?_eq_getElem h, List.getD_eq_getElem?_getD, List.getElem?_eq_getElem h]
  rfl

theorem slice_of_le {l : List α} {a b : Nat} (hab : a ≤ b) (hb : b ≤ l.length) :
    (slice l a b : Except (Stop ε) (List α)) = .ok ((l.drop a).take (b - a)) := if_pos ⟨hab, hb⟩

/-- To the end of the list. -/
theorem slice_drop {l : List α} {a : Nat} (h : a ≤ l.length) :
    (slice l a l.length : Except (Stop ε) (List α)) = .ok (l.drop a) := by
  rw [slice_of_le h (Nat.le_refl _), ← List.length_drop, List.take_length]

theorem index_middle {l a b : List α} {x : α} {i : Nat} (hl : l = a ++ x :: b) (hi : a.length = i) :
    (index l i : Except (Stop ε) α) = .ok x := by
  rw [index, hl, List.getElem?_append_right (Nat.le_of_eq hi), hi, Nat.sub_self]
  rfl

theorem slice_middle {l a b d : List α} {i j : Nat} (hl : l = a ++ (b ++ d)) (hi : a.length = i) (hj : i + b.length = j) :
    (slice l i j : Except (Stop ε) (List α)) = .ok b := by
  have hlen : j ≤ l.length := by
    rw [hl, List.length_append, List.length_append]
    omega
  rw [slice_of_le (by omega) hlen, hl, List.drop_left' hi, List.take_left' (by omega)]

/-- What follows a check may assume that it passed. -/
theorem bind_congr_ok {x : Except ε α} {f g : α → Except ε β} (h : ∀ a, x = .ok a → f a = g a) : x >>= f = x >>= g := by
  cases x with
  | error e => rfl
  | ok a => exact h a rfl

theorem InRange.bind {x : Except (Stop ε) α} {f : α → Except (Stop ε) β} (hx : InRange x)
    (hf : ∀ a, x = .ok a → InRange (f a)) : InRange (x >>= f) := by
  cases x with
  | error e =>
    intro h
    exact hx (congrArg Except.error (Except.error.inj h))
  | ok a => exact hf a rfl

/-! ## Loops over what is left -/

section
variable {σ : Type} {round : σ → List α → Except (Stop ε) (σ × List α)}
  (less : ∀ s l s' rest, round s l = .ok (s', rest) → rest.length < l.length)

/-- Rounds while something is left, each of which leaves less. -/
def consume (less : ∀ s l s' rest, round s l = .ok (s', rest) → rest.length < l.length) (s : σ) (l : List α) : Except (Stop ε) σ :=
  if l.isEmpty then .ok s
  else
    match _h : round s l with
    | .error e => .error e
    | .ok (s', rest) => consume less s' rest
termination_by l.length
decreasing_by exact less _ _ _ _ _h

@[simp] theorem consume_nil (s : σ) : consume less s [] = .ok s := by
  unfold consume
  exact if_pos rfl

theorem consume_round {s s' : σ} {l rest : List α} (hl : l ≠ []) (h : round s l = .ok (s', rest)) :
    consume less s l = consume less s' rest := by
  rw [consume, if_neg (by simpa using hl)]
  split
  · next e he =>
    rw [h] at he
    cases he
  · next t r he =>
    rw [h] at he
    cases he
    rfl

theorem consume_error {s : σ} {l : List α} {e : Stop ε} (hl : l ≠ []) (h : round s l = .error e) :
    consume less s l = .error e := by
  rw [consume, if_neg (by simpa using hl)]
  split
  · next e' he =>
    rw [h] at he
    cases he
    rfl
  · next t r he =>
    rw [h] at he
    cases he

/-- The rounds of a loop that comes to its end. -/
theorem consume_induct {P : σ → List α → σ → Prop} (done : ∀ s, P s [] s)
    (step : ∀ s l s' rest t, l ≠ [] → round s l = .ok (s', rest) → P s' rest t → P s l t) {s t : σ} {l : List α}
    (h : consume less s l = .ok t) : P s l t := by
  induction hn : l.length using Nat.strong_induction_on generalizing s l with
  | _ n ih =>
    by_cases hl : l = []
    · subst hl
      rw [consume_nil] at h
      cases h
      exact done _
    · cases hr : round s l with
      | error e =>
        rw [consume_error less hl hr] at h
        cases h
      | ok r =>
        obtain ⟨s', rest⟩ := r
        rw [consume_round less hl hr] at h
        exact step s l s' rest t hl hr (ih _ (hn ▸ less _ _ _ _ hr) h rfl)

theorem inRange_consume (h : ∀ s l, l ≠ [] → InRange (round s l)) (s : σ) (l : List α) : InRange (consume less s l) := by
  induction hn : l.length using Nat.strong_induction_on generalizing s l with
  | _ n ih =>
    by_cases hl : l = []
    · subst hl
      rw [consume_nil]
      exact inRange_ok s
    · cases hr : round s l with
      | error e =>
        rw [consume_error less hl hr]
        intro he
        exact h s l hl (hr.trans (congrArg Except.error (Except.error.inj he)))
      | ok r =>
        obtain ⟨s', rest⟩ := r
        rw [consume_round less hl hr]
        exact ih _ (hn ▸ less _ _ _ _ hr) s' rest rfl

end

end Slices
