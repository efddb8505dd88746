import Mikaki.Lib.Concurrent

/-!
# Programs and their peers

A program sends one request after another and goes on with whatever the peer
answers. The peer sees all that was sent before it chooses its next reply.
`Traces` says which exchanges a program can have with some peer; what holds of
every trace holds against every peer.
-/

namespace Dialogue

open Concurrent

variable {ρ : Type} {χ α β ε : Type}

/-- The exchanges of a program with a peer that has seen `seen`, and the result. -/
def converse (peer : List (ρ × χ) → ρ → χ) (seen : List (ρ × χ)) : Prog ρ (fun _ => χ) α → List (ρ × χ) × α
  | .ret a => ([], a)
  | .call r k =>
    ((r, peer seen r) :: (converse peer (seen ++ [(r, peer seen r)]) (k (peer seen r))).1,
      (converse peer (seen ++ [(r, peer seen r)]) (k (peer seen r))).2)

/-- The program can make these exchanges and then return `a`. -/
def Traces : Prog ρ (fun _ => χ) α → List (ρ × χ) → α → Prop
  | .ret b, t, a => t = [] ∧ a = b
  | .call r k, t, a => ∃ x rest, t = (r, x) :: rest ∧ Traces (k x) rest a

theorem converse_traces (peer : List (ρ × χ) → ρ → χ) (p : Prog ρ (fun _ => χ) α) (seen : List (ρ × χ)) :
    Traces p (converse peer seen p).1 (converse peer seen p).2 := by
  induction p generalizing seen with
  | ret a => exact ⟨rfl, rfl⟩
  | call r k ih => exact ⟨_, _, rfl, ih _ _⟩

theorem Traces.bind {p : Prog ρ (fun _ => χ) α} {f : α → Prog ρ (fun _ => χ) β} {t : List (ρ × χ)} {b : β}
    (h : Traces (p >>= f) t b) : ∃ before after a, t = before ++ after ∧ Traces p before a ∧ Traces (f a) after b := by
  induction p generalizing t with
  | ret a => exact ⟨[], t, a, rfl, ⟨rfl, rfl⟩, h⟩
  | call r k ih =>
    obtain ⟨x, rest, rfl, h⟩ := h
    obtain ⟨before, after, a, rfl, hp, hf⟩ := ih x h
    exact ⟨(r, x) :: before, after, a, rfl, ⟨x, before, rfl, hp⟩, hf⟩

section
variable {x : ExceptT ε (Prog ρ (fun _ => χ)) α} {t : List (ρ × χ)}

/-- The first part fails and nothing is sent after it, or the second goes on where it has ended. -/
theorem Traces.andThen {f : α → ExceptT ε (Prog ρ (fun _ => χ)) β} {r : Except ε β} (h : Traces (x >>= f).run t r) :
    (∃ e, r = .error e ∧ Traces x.run t (.error e)) ∨
      ∃ before after a, t = before ++ after ∧ Traces x.run before (.ok a) ∧ Traces (f a).run after r := by
  rw [ExceptT.run_bind] at h
  obtain ⟨before, after, a, rfl, hx, hf⟩ := h.bind
  cases a with
  | error e =>
    obtain ⟨rfl, rfl⟩ := hf
    exact .inl ⟨e, rfl, by rwa [List.append_nil]⟩
  | ok a => exact .inr ⟨before, after, a, rfl, hx, hf⟩

theorem traces_pure {a : α} {r : Except ε α} (h : Traces (pure a : ExceptT ε (Prog ρ (fun _ => χ)) α).run t r) :
    t = [] ∧ r = .ok a := h

theorem traces_throw {e : ε} {r : Except ε α} (h : Traces (throw e : ExceptT ε (Prog ρ (fun _ => χ)) α).run t r) :
    t = [] ∧ r = .error e := h

/-- A request whose reply may be a failure. -/
theorem traces_query {s : ρ} {f : χ → Except ε α} {r : Except ε α}
    (h : Traces (Prog.query s f : ExceptT ε (Prog ρ (fun _ => χ)) α).run t r) : ∃ y, t = [(s, y)] ∧ r = f y := by
  obtain ⟨y, rest, rfl, rfl, rfl⟩ := h
  exact ⟨y, rfl, rfl⟩

theorem traces_fails {c : Prop} [Decidable c] {e : ε} {r : Except ε Unit}
    (h : Traces (Prog.fails c e : ExceptT ε (Prog ρ (fun _ => χ)) Unit).run t r) :
    t = [] ∧ ((c ∧ r = .error e) ∨ (¬c ∧ r = .ok ())) := by
  unfold Prog.fails at h
  by_cases hc : c
  · rw [if_pos hc] at h
    obtain ⟨ht, hr⟩ := traces_throw h
    exact ⟨ht, .inl ⟨hc, hr⟩⟩
  · rw [if_neg hc] at h
    obtain ⟨ht, hr⟩ := traces_pure h
    exact ⟨ht, .inr ⟨hc, hr⟩⟩

end

end Dialogue
