import Mathlib

/-!
# Checked computations

A validator is a chain of early returns in `Except ε`. Each lemma here says
when one link of such a chain lets the rest run, so that a validator's
success unfolds to the conjunction of its conditions.
-/

namespace Checks

variable {ε α β : Type}

/-- Return `e` early when `c` holds. -/
def denyIf (c : Prop) [Decidable c] (e : ε) : Except ε Unit :=
  if c then .error e else .ok ()

/-- Run `f` on each element for its errors only. -/
def checkAll (l : List α) (f : α → Except ε Unit) : Except ε Unit :=
  match l with
  | [] => .ok ()
  | a :: l => f a >>= fun _ => checkAll l f

/-- Run `f` on each element and keep the results in order. -/
def collect (l : List α) (f : α → Except ε β) : Except ε (List β) :=
  match l with
  | [] => .ok []
  | a :: l => f a >>= fun b => collect l f >>= fun bs => .ok (b :: bs)

@[simp] theorem denyIf_eq_ok {c : Prop} [Decidable c] {e : ε} {x : Unit} : denyIf c e = .ok x ↔ ¬c := by
  unfold denyIf; split <;> simp [*]

theorem bind_eq_ok {x : Except ε α} {f : α → Except ε β} {b : β} :
    (x >>= f) = .ok b ↔ ∃ a, x = .ok a ∧ f a = .ok b := by
  cases x <;> simp [bind, Except.bind]

@[simp] theorem denyIf_false {h : Decidable False} {e : ε} : denyIf False e = .ok () := if_neg id

@[simp] theorem exists_unit {p : Unit → Prop} : (∃ u, p u) ↔ p () := ⟨fun ⟨_, h⟩ => h, fun h => ⟨(), h⟩⟩

@[simp] theorem error_bind (e : ε) (f : α → Except ε β) : (Except.error e >>= f) = .error e := rfl

@[simp] theorem ok_bind (a : α) (f : α → Except ε β) : (Except.ok a >>= f) = f a := rfl

@[simp] theorem check_bind_eq_ok {x : Except ε Unit} {f : Unit → Except ε β} {b : β} :
    (x >>= f) = .ok b ↔ x = .ok () ∧ f () = .ok b := by
  rw [bind_eq_ok]
  exact ⟨fun ⟨_, h⟩ => h, fun h => ⟨(), h⟩⟩

@[simp] theorem pure_eq_ok {a b : α} : (pure a : Except ε α) = .ok b ↔ a = b := by
  simp [pure, Except.pure]

theorem ok_of_isOk {x : Except ε α} (h : x.isOk = true) : ∃ a, x = .ok a := by
  cases x with
  | error e => cases h
  | ok a => exact ⟨a, rfl⟩

@[simp] theorem checkAll_eq_ok {l : List α} {f : α → Except ε Unit} {x : Unit} :
    checkAll l f = .ok x ↔ ∀ a ∈ l, f a = .ok () := by
  induction l with
  | nil => simp [checkAll]
  | cons a l ih => simp only [checkAll, check_bind_eq_ok, ih, List.forall_mem_cons]

theorem collect_eq_ok {l : List α} {f : α → Except ε β} {bs : List β} :
    collect l f = .ok bs ↔ List.Forall₂ (fun a b => f a = .ok b) l bs := by
  induction l generalizing bs with
  | nil => simp [collect, eq_comm]
  | cons a l ih =>
    simp only [collect, bind_eq_ok, ih, List.forall₂_cons_left_iff, Except.ok.injEq]
    constructor
    · rintro ⟨b, hb, bs', hbs, rfl⟩; exact ⟨b, bs', hb, hbs, rfl⟩
    · rintro ⟨b, bs', hb, hbs, rfl⟩; exact ⟨b, hb, bs', hbs, rfl⟩

theorem collect_length {l : List α} {f : α → Except ε β} {bs : List β}
    (h : collect l f = .ok bs) : bs.length = l.length :=
  (collect_eq_ok.mp h).length_eq.symm

theorem collect_mem {l : List α} {f : α → Except ε β} {bs : List β} (h : collect l f = .ok bs) :
    ∀ b ∈ bs, ∃ a ∈ l, f a = .ok b := by
  induction l generalizing bs with
  | nil => cases h; simp
  | cons a l ih =>
    simp only [collect, bind_eq_ok, Except.ok.injEq] at h
    obtain ⟨b, hb, bs, hbs, rfl⟩ := h
    intro c hc
    rcases List.mem_cons.mp hc with rfl | hc
    · exact ⟨a, List.mem_cons_self, hb⟩
    · obtain ⟨x, hx, hf⟩ := ih hbs c hc
      exact ⟨x, List.mem_cons_of_mem _ hx, hf⟩

/-- Pairs checked against a second list of the same length keep the first list in order. -/
theorem collect_zip_fst {γ : Type} {l : List α} {m : List γ} {f : α × γ → Except ε (α × β)} {r : List (α × β)}
    (hl : m.length = l.length) (hf : ∀ a c p, f (a, c) = .ok p → p.1 = a) (h : collect (l.zip m) f = .ok r) :
    r.map Prod.fst = l := by
  induction l generalizing m r with
  | nil => cases h; rfl
  | cons a l ih =>
    cases m with
    | nil => cases hl
    | cons c m =>
      simp only [List.zip_cons_cons, collect, bind_eq_ok, Except.ok.injEq] at h
      obtain ⟨p, hp, ps, hps, rfl⟩ := h
      rw [List.map_cons, hf a c p hp, ih (Nat.succ.inj hl) hps]

theorem collect_map {γ : Type} (l : List α) (g : α → γ) (f : γ → Except ε β) :
    collect (l.map g) f = collect l (fun a => f (g a)) := by
  induction l with
  | nil => rfl
  | cons a l ih => simp [collect, ih]

theorem collect_eq_map {l : List α} {f : α → Except ε β} (g : α → β)
    (h : ∀ a ∈ l, f a = .ok (g a)) : collect l f = .ok (l.map g) := by
  induction l with
  | nil => rfl
  | cons a l ih =>
    simp [collect, h a (by simp), ih fun x hx => h x (by simp [hx])]

end Checks
