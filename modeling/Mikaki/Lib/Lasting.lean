import Mikaki.Lib.Checks

/-!
# Verdicts that last until a deadline

A check that reads the time is a function of the time. Where it accepts, it
accepts with the same result before the first of some bounds, and no more from
that bound on. The bounds are composed along the steps of the check.
-/

namespace Lasting

open Checks

section
variable {T ε α β : Type} [LinearOrder T]

/-- `d` is the first of the bounds. -/
def Least (d : T) (l : List T) : Prop := d ∈ l ∧ ∀ e ∈ l, d ≤ e

/-- The deadline of a result: until it the check accepts with the same result, and from it on no more. -/
def Exact (x : T → Except ε α) (deadline : α → T) : Prop :=
  ∀ t a, x t = .ok a → t < deadline a ∧ (∀ u, t ≤ u → u < deadline a → x u = .ok a) ∧ ∀ u, deadline a ≤ u → ∀ b, x u ≠ .ok b

/-- What a step of a check adds, at `t` and behind the bounds `k`: where it accepts, there are further bounds, before which it
accepts with the same result and from which on it does not. -/
def Lasts (k : List T) (x : T → Except ε α) (t : T) (Q : α → List T → Prop) : Prop :=
  (∀ e ∈ k, t < e) → ∀ a, x t = .ok a → ∃ l, Q a l ∧ (∀ e ∈ l, t < e) ∧
    (∀ u, t ≤ u → (∀ e ∈ k ++ l, u < e) → x u = .ok a) ∧
    ∀ u, (∀ e ∈ k, u < e) → (∃ e ∈ l, e ≤ u) → ∀ b, x u ≠ .ok b

variable {k : List T} {t : T} {x : T → Except ε α} {Q : α → List T → Prop} {R : β → List T → Prop}

theorem Lasts.exact {f : α → T} (h : ∀ t, Lasts [] x t fun a l => Least (f a) l) : Exact x f := by
  intro t a ha
  obtain ⟨l, ⟨hmem, hleast⟩, hlate, hsame, hover⟩ := h t (by simp) a ha
  refine ⟨hlate _ hmem, fun u hu hd => ?_, fun u hd b => ?_⟩
  · exact hsame u hu fun e he => lt_of_lt_of_le hd (hleast e he)
  · exact hover u (by simp) ⟨_, hmem, hd⟩ b

theorem Lasts.weaken {Q' : α → List T → Prop} (h : Lasts k x t Q) (hQ : ∀ a l, x t = .ok a → Q a l → Q' a l) : Lasts k x t Q' := by
  intro hk a ha
  obtain ⟨l, hq, hl⟩ := h hk a ha
  exact ⟨l, hQ a l ha hq, hl⟩

/-- A step that no later time before the bounds changes. -/
theorem Lasts.still (h : (∀ e ∈ k, t < e) → ∀ u, t ≤ u → (∀ e ∈ k, u < e) → x u = x t) (hQ : ∀ a, x t = .ok a → Q a []) : Lasts k x t Q := by
  intro hk a ha
  refine ⟨[], hQ a ha, by simp, fun u hu hbefore => ?_, by simp⟩
  rw [List.append_nil] at hbefore
  exact (h hk u hu hbefore).trans ha

theorem Lasts.const {x : Except ε α} (hQ : ∀ a, x = .ok a → Q a []) : Lasts k (fun _ => x) t Q := .still (fun _ _ _ _ => rfl) hQ

theorem Lasts.bind {f : α → T → Except ε β} (hx : Lasts k x t Q)
    (hf : ∀ a l, Q a l → Lasts (k ++ l) (f a) t fun b m => R b (l ++ m)) : Lasts k (fun u => x u >>= fun a => f a u) t R := by
  intro hk b hb
  obtain ⟨a, ha, hb⟩ := bind_eq_ok.mp hb
  obtain ⟨l, hq, hlate, hsame, hover⟩ := hx hk a ha
  have hkl : ∀ e ∈ k ++ l, t < e := fun e he => (List.mem_append.mp he).elim (hk e) (hlate e)
  obtain ⟨m, hr, hlate', hsame', hover'⟩ := hf a l hq hkl b hb
  refine ⟨l ++ m, hr, fun e he => (List.mem_append.mp he).elim (hlate e) (hlate' e), fun u hu hbefore => ?_, fun u hbefore hover'' c hc => ?_⟩
  · rw [← List.append_assoc] at hbefore
    exact bind_eq_ok.mpr ⟨a, hsame u hu fun e he => hbefore e (List.mem_append_left _ he), hsame' u hu hbefore⟩
  · obtain ⟨a', ha', hc⟩ := bind_eq_ok.mp hc
    by_cases hl : ∃ e ∈ l, e ≤ u
    · exact hover u hbefore hl a' ha'
    · simp only [not_exists, not_and, not_le] at hl
      have hall : ∀ e ∈ k ++ l, u < e := fun e he => (List.mem_append.mp he).elim (hbefore e) (hl e)
      obtain ⟨e, he, hle⟩ := hover''
      have hm : e ∈ m := (List.mem_append.mp he).resolve_left fun he => absurd hle (not_le.mpr (hl e he))
      rw [hsame u (le_of_lt (lt_of_lt_of_le (hlate' e hm) hle)) hall] at ha'
      cases ha'
      exact hover' u hall ⟨e, hm, hle⟩ c hc

/-- A step that does not read the time. -/
theorem Lasts.step {x : Except ε α} {f : α → T → Except ε β} (hf : ∀ a, x = .ok a → Lasts k (f a) t R) :
    Lasts k (fun u => x >>= fun a => f a u) t R := by
  refine Lasts.bind (Q := fun a l => x = .ok a ∧ l = []) (.const fun a ha => ⟨ha, rfl⟩) fun a l hl => ?_
  obtain ⟨ha, rfl⟩ := hl
  rw [List.append_nil]
  exact hf a ha

/-- A step with the result of another. -/
theorem Lasts.then {f : α → Except ε β} (hx : Lasts k x t Q) (hf : ∀ a l b, Q a l → f a = .ok b → R b l) :
    Lasts k (fun u => x u >>= f) t R :=
  hx.bind fun a l hq => .const fun b hb => by
    rw [List.append_nil]
    exact hf a l b hq hb

/-- A check that accepts within a window. -/
theorem Lasts.window {W : α → T → T → Prop} (h : ∀ u a, x u = .ok a ↔ ∃ s e, W a s e ∧ s ≤ u ∧ u < e)
    (hW : ∀ a s e b s' e', W a s e → W b s' e' → e = e') : Lasts k x t fun a l => ∃ s e, W a s e ∧ s ≤ t ∧ l = [e] := by
  intro _ a ha
  obtain ⟨s, e, hw, hs, he⟩ := (h t a).mp ha
  refine ⟨[e], ⟨s, e, hw, hs, rfl⟩, by simpa using he, fun u hu hbefore => ?_, fun u _ hover b hb => ?_⟩
  · exact (h u a).mpr ⟨s, e, hw, hs.trans hu, hbefore e (by simp)⟩
  · obtain ⟨s', e', hw', -, hb⟩ := (h u b).mp hb
    simp only [List.mem_singleton, exists_eq_left] at hover
    rw [hW a s e b s' e' hw hw'] at hover
    exact absurd hb (not_lt.mpr hover)

/-- The bounds of the elements of a list together. -/
theorem Lasts.collect {f : α → T → Except ε β} {l : List α} {P : α → β → List T → Prop} {g : β → T}
    (hf : ∀ a ∈ l, ∀ k, Lasts k (f a) t fun b m => m = [g b] ∧ P a b m) (hP : ∀ a b m m', P a b m → m ⊆ m' → P a b m') :
    Lasts k (fun u => collect l fun a => f a u) t fun bs m => m = bs.map g ∧ ∀ a ∈ l, ∃ b ∈ bs, P a b m := by
  induction l generalizing k with
  | nil => exact .const fun bs hbs => by cases hbs; exact ⟨rfl, by simp⟩
  | cons a l ih =>
    refine (hf a List.mem_cons_self k).bind fun b m hm => ?_
    refine (ih fun a ha => hf a (List.mem_cons_of_mem _ ha)).then fun bs ms r hms hr => ?_
    cases hr
    obtain ⟨rfl, hfirst⟩ := hm
    obtain ⟨rfl, hrest⟩ := hms
    refine ⟨rfl, fun c hc => ?_⟩
    rcases List.mem_cons.mp hc with rfl | hc
    · exact ⟨b, List.mem_cons_self, hP _ _ _ _ hfirst (by simp)⟩
    · obtain ⟨r, hr, hp⟩ := hrest c hc
      exact ⟨r, List.mem_cons_of_mem _ hr, hP _ _ _ _ hp (by simp)⟩

theorem collect_congr {f g : α → Except ε β} {l : List α} (h : ∀ a ∈ l, f a = g a) : Checks.collect l f = Checks.collect l g := by
  induction l with
  | nil => rfl
  | cons a l ih =>
    rw [Checks.collect, Checks.collect, h a List.mem_cons_self, ih fun a ha => h a (List.mem_cons_of_mem _ ha)]

theorem checkAll_congr {f g : α → Except ε Unit} {l : List α} (h : ∀ a ∈ l, f a = g a) : checkAll l f = checkAll l g := by
  induction l with
  | nil => rfl
  | cons a l ih =>
    rw [checkAll, checkAll, h a List.mem_cons_self, ih fun a ha => h a (List.mem_cons_of_mem _ ha)]

end

/-! ## The first bound -/

section
variable {T : Type} [LinearOrder T] {d : T} {l : List T}

theorem foldl_min_le (d : T) (l : List T) : l.foldl min d ≤ d ∧ ∀ e ∈ l, l.foldl min d ≤ e := by
  induction l generalizing d with
  | nil => simp
  | cons a l ih =>
    obtain ⟨hle, hall⟩ := ih (min d a)
    refine ⟨hle.trans (min_le_left _ _), fun e he => ?_⟩
    rcases List.mem_cons.mp he with rfl | he
    · exact hle.trans (min_le_right _ _)
    · exact hall e he

theorem foldl_min_mem (d : T) (l : List T) : l.foldl min d = d ∨ l.foldl min d ∈ l := by
  induction l generalizing d with
  | nil => exact .inl rfl
  | cons a l ih =>
    rcases ih (min d a) with h | h
    · rcases min_choice d a with hd | ha
      · exact .inl (h.trans hd)
      · exact .inr (List.mem_cons.mpr (.inl (h.trans ha)))
    · exact .inr (List.mem_cons_of_mem _ h)

/-- Bounds that are the same ones have the same first one. -/
theorem Least.subset {m : List T} (h : Least d l) (hl : l ⊆ m) (hm : m ⊆ l) : Least d m := ⟨hl h.1, fun e he => h.2 e (hm he)⟩

/-- The minimum from a start that is no earlier than some bound is the first bound. -/
theorem least_foldl (h : ∃ e ∈ l, e ≤ d) : Least (l.foldl min d) l := by
  obtain ⟨hle, hall⟩ := foldl_min_le d l
  refine ⟨?_, hall⟩
  rcases foldl_min_mem d l with hd | hmem
  · obtain ⟨e, he, hed⟩ := h
    rw [hd] at hall ⊢
    rwa [le_antisymm (hall e he) hed]
  · exact hmem

end

end Lasting
