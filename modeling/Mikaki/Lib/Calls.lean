import Mathlib

/-!
# Call sequences

A component answers one call at a time: `step c s` is the reply and the state
after it. A run is a finite sequence of calls from some state; what one call
preserves, every run preserves.
-/

namespace Calls

variable {σ κ ρ : Type*} (step : κ → σ → ρ × σ)

/-- The state after a sequence of calls. -/
def run (s : σ) : List κ → σ
  | [] => s
  | c :: cs => run (step c s).2 cs

@[simp] theorem run_nil (s : σ) : run step s [] = s := rfl

@[simp] theorem run_cons (s : σ) (c : κ) (cs : List κ) : run step s (c :: cs) = run step (step c s).2 cs := rfl

theorem run_append (s : σ) (cs ds : List κ) : run step s (cs ++ ds) = run step (run step s cs) ds := by
  induction cs generalizing s with
  | nil => rfl
  | cons c cs ih => exact ih (step c s).2

theorem run_snoc (s : σ) (cs : List κ) (c : κ) : run step s (cs ++ [c]) = (step c (run step s cs)).2 := by
  rw [run_append]; rfl

variable {step}

/-- What every call preserves, every run preserves. -/
theorem run_invariant {P : σ → Prop} (hs : ∀ c s, P s → P (step c s).2) {s : σ} (h : P s) (cs : List κ) :
    P (run step s cs) := by
  induction cs generalizing s with
  | nil => exact h
  | cons c cs ih => exact ih (hs c s h)

/-- Under an invariant, a preorder that every call respects relates the two ends of a run. -/
theorem run_rel {I : σ → Prop} {R : σ → σ → Prop} (hr : ∀ s, R s s) (ht : ∀ {a b c}, R a b → R b c → R a c)
    (hI : ∀ c s, I s → I (step c s).2) (hR : ∀ c s, I s → R s (step c s).2) {s : σ} (h : I s) (cs : List κ) :
    R s (run step s cs) := by
  induction cs generalizing s with
  | nil => exact hr s
  | cons c cs ih => exact ht (hR c s h) (ih (hI c s h))

/-! ## Events that happen at most once -/

variable (step) in
/-- How many calls of a run are an event, judged before the call. -/
def count (event : κ → σ → Bool) (s : σ) : List κ → Nat
  | [] => 0
  | c :: cs => (if event c s then 1 else 0) + count event (step c s).2 cs

variable {event : κ → σ → Bool} {I Q : σ → Prop}

theorem count_eq_zero (hQ : ∀ c s, I s → Q s → I (step c s).2 ∧ Q (step c s).2)
    (he : ∀ c s, I s → Q s → event c s = false) {s : σ} (hI : I s) (h : Q s) (cs : List κ) :
    count step event s cs = 0 := by
  induction cs generalizing s with
  | nil => rfl
  | cons c cs ih =>
    rw [count, he c s hI h, ih (hQ c s hI h).1 (hQ c s hI h).2]
    rfl

/-- An event that leaves a mark, and does not happen where the mark is, happens at most once. -/
theorem count_le_one (hI : ∀ c s, I s → I (step c s).2) (hQ : ∀ c s, I s → Q s → Q (step c s).2)
    (he : ∀ c s, I s → Q s → event c s = false) (hm : ∀ c s, I s → event c s = true → Q (step c s).2) {s : σ}
    (h : I s) (cs : List κ) : count step event s cs ≤ 1 := by
  induction cs generalizing s with
  | nil => exact Nat.zero_le 1
  | cons c cs ih =>
    have hs := hI c s h
    by_cases hc : event c s = true
    · have hz := count_eq_zero (fun c s i q => ⟨hI c s i, hQ c s i q⟩) he hs (hm c s h hc) cs
      have hone : count step event s (c :: cs) = 1 := by rw [count, if_pos hc, hz]
      exact Nat.le_of_eq hone
    · rw [count, if_neg hc, Nat.zero_add]
      exact ih hs

variable (step) in
/-- No call of a run is an event, judged before the call. -/
def Avoids (event : κ → σ → Prop) (s : σ) : List κ → Prop
  | [] => True
  | c :: cs => ¬event c s ∧ Avoids event (step c s).2 cs

/-- What every call but the event preserves, a run without the event preserves. -/
theorem avoids_invariant {event : κ → σ → Prop} (hI : ∀ c s, I s → I (step c s).2)
    (hQ : ∀ c s, I s → ¬event c s → Q s → Q (step c s).2) {s : σ} (h : I s) (hq : Q s) {cs : List κ}
    (ha : Avoids step event s cs) : Q (run step s cs) := by
  induction cs generalizing s with
  | nil => exact hq
  | cons c cs ih => exact ih (hI c s h) (hQ c s h ha.1 hq) ha.2

/-! ## Calls and their replies -/

variable (step) in
/-- Some call `c` of a run was answered with `r`. -/
def Answered (s : σ) (cs : List κ) (c : κ) (r : ρ) : Prop :=
  ∃ before after, cs = before ++ c :: after ∧ (step c (run step s before)).1 = r

theorem not_answered_nil {s : σ} {c : κ} {r : ρ} : ¬Answered step s [] c r := by
  intro ⟨before, after, h, _⟩
  exact List.append_ne_nil_of_right_ne_nil before (List.cons_ne_nil c after) h.symm

/-- What was answered in a run, or at its last call. -/
theorem answered_snoc {s : σ} {cs : List κ} {d c : κ} {r : ρ} :
    Answered step s (cs ++ [d]) c r ↔ Answered step s cs c r ∨ (c = d ∧ (step d (run step s cs)).1 = r) := by
  constructor
  · intro ⟨before, after, h, hr⟩
    rcases List.eq_nil_or_concat' after with rfl | ⟨rest, x, rfl⟩
    · obtain ⟨rfl, hc⟩ := List.append_inj' h rfl
      obtain rfl : d = c := List.head_eq_of_cons_eq hc
      exact .inr ⟨rfl, hr⟩
    · rw [← List.cons_append, ← List.append_assoc] at h
      obtain ⟨rfl, -⟩ := List.append_inj' h rfl
      exact .inl ⟨before, rest, rfl, hr⟩
  · intro h
    rcases h with ⟨before, after, rfl, hr⟩ | ⟨rfl, hr⟩
    · exact ⟨before, after ++ [d], by simp, hr⟩
    · exact ⟨cs, [], rfl, hr⟩

/-- What relates every run so far to its state: it holds at the start and every next call keeps it. -/
theorem run_history {P : List κ → σ → Prop} {s : σ} (h : P [] s)
    (hs : ∀ cs c, P cs (run step s cs) → P (cs ++ [c]) (step c (run step s cs)).2) (cs : List κ) : P cs (run step s cs) := by
  induction cs using List.reverseRecOn with
  | nil => exact h
  | append_singleton cs c ih =>
    rw [run_snoc]
    exact hs cs c ih

theorem count_snoc (s : σ) (event : κ → σ → Bool) (cs : List κ) (c : κ) :
    count step event s (cs ++ [c]) = count step event s cs + if event c (run step s cs) then 1 else 0 := by
  induction cs generalizing s with
  | nil => exact Nat.add_comm _ _
  | cons d cs ih =>
    rw [List.cons_append, count, count, ih, run_cons]
    omega

variable (step) in
/-- The replies of a run, in order. -/
def replies (s : σ) : List κ → List ρ
  | [] => []
  | c :: cs => (step c s).1 :: replies (step c s).2 cs

theorem replies_snoc (s : σ) (cs : List κ) (c : κ) :
    replies step s (cs ++ [c]) = replies step s cs ++ [(step c (run step s cs)).1] := by
  induction cs generalizing s with
  | nil => rfl
  | cons d cs ih => exact congrArg _ (ih (step d s).2)

variable (step) in
/-- What the calls of a run contribute, each judged before the call, in order. -/
def gathered {β : Type*} (part : κ → σ → List β) (s : σ) : List κ → List β
  | [] => []
  | c :: cs => part c s ++ gathered part (step c s).2 cs

theorem gathered_snoc {β : Type*} (part : κ → σ → List β) (s : σ) (cs : List κ) (c : κ) :
    gathered step part s (cs ++ [c]) = gathered step part s cs ++ part c (run step s cs) := by
  induction cs generalizing s with
  | nil => exact List.append_nil _
  | cons d cs ih => rw [List.cons_append, gathered, gathered, ih, run_cons, List.append_assoc]

end Calls
