import Mathlib

/-!
# Concurrent programs

A program returns, or makes a request and goes on with the reply. Any number
of callers run programs against one shared state; a request is one atomic step
and may be answered in several ways. `Valid` is the rely-guarantee rule for
one program: what it knows between its steps is not touched by the others, and
each of its own steps keeps the invariant and its guarantee.
-/

namespace Concurrent

universe u

/-- A program over requests `ρ`. -/
inductive Prog (ρ : Type u) (reply : ρ → Type) (α : Type) : Type u where
  | ret (a : α)
  | call (r : ρ) (k : reply r → Prog ρ reply α)

namespace Prog

variable {ρ : Type u} {reply : ρ → Type} {α β : Type}

def bind (p : Prog ρ reply α) (f : α → Prog ρ reply β) : Prog ρ reply β :=
  match p with
  | ret a => f a
  | call r k => call r fun x => (k x).bind f

instance : Monad (Prog ρ reply) where
  pure := ret
  bind := bind

/-- Make one request. -/
def request (r : ρ) : Prog ρ reply (reply r) := call r ret

@[simp] theorem pure_eq (a : α) : (pure a : Prog ρ reply α) = ret a := rfl

@[simp] theorem ret_bind (a : α) (f : α → Prog ρ reply β) : (ret a >>= f) = f a := rfl

@[simp] theorem call_bind (r : ρ) (k : reply r → Prog ρ reply α) (f : α → Prog ρ reply β) :
    (call r k >>= f) = call r fun x => k x >>= f := rfl

@[simp] theorem request_bind (r : ρ) (f : reply r → Prog ρ reply β) : (request r >>= f) = call r f := rfl

theorem bind_ret (p : Prog ρ reply α) : (p >>= ret) = p := by
  induction p with
  | ret a => rfl
  | call r k ih => exact congrArg (call r) (funext ih)

theorem bind_bind {γ : Type} (p : Prog ρ reply α) (f : α → Prog ρ reply β) (g : β → Prog ρ reply γ) :
    (p >>= f >>= g) = p >>= fun a => f a >>= g := by
  induction p with
  | ret a => rfl
  | call r k ih => exact congrArg (call r) (funext ih)

instance : LawfulMonad (Prog ρ reply) := LawfulMonad.mk' (Prog ρ reply) bind_ret (fun _ _ => rfl) bind_bind

/-- Every request of the program is one of `P`. -/
inductive Only (P : ρ → Prop) : Prog ρ reply α → Prop
  | ret (a : α) : Only P (.ret a)
  | call {r : ρ} {k : reply r → Prog ρ reply α} (h : P r) (hk : ∀ x, Only P (k x)) : Only P (.call r k)

theorem Only.bind {P : ρ → Prop} {p : Prog ρ reply α} {f : α → Prog ρ reply β} (h : Only P p) (hf : ∀ a, Only P (f a)) :
    Only P (p >>= f) := by
  induction h with
  | ret a => exact hf a
  | call h _ ih => exact .call h ih

theorem Only.weaken {P Q : ρ → Prop} {p : Prog ρ reply α} (h : Only P p) (hQ : ∀ r, P r → Q r) : Only Q p := by
  induction h with
  | ret a => exact .ret a
  | call h _ ih => exact .call (hQ _ h) ih

/-- On no path does the program make more than `n` requests of `φ`. -/
inductive AtMost (φ : ρ → Prop) : Nat → Prog ρ reply α → Prop
  | ret {n : Nat} (a : α) : AtMost φ n (.ret a)
  | other {n : Nat} {r : ρ} {k : reply r → Prog ρ reply α} (h : ¬φ r) (hk : ∀ x, AtMost φ n (k x)) : AtMost φ n (.call r k)
  | one {n : Nat} {r : ρ} {k : reply r → Prog ρ reply α} (hk : ∀ x, AtMost φ n (k x)) : AtMost φ (n + 1) (.call r k)

section
variable {φ : ρ → Prop} {m n : Nat} {p : Prog ρ reply α}

theorem AtMost.mono (h : AtMost φ m p) (hmn : m ≤ n) : AtMost φ n p := by
  induction h generalizing n with
  | ret a => exact .ret a
  | other h _ ih => exact .other h fun x => ih x hmn
  | one _ ih =>
    obtain ⟨l, rfl⟩ := Nat.exists_eq_add_of_lt (Nat.lt_of_succ_le hmn)
    exact .one fun x => ih x (by omega)

theorem AtMost.bind {f : α → Prog ρ reply β} (h : AtMost φ m p) (hf : ∀ a, AtMost φ n (f a)) :
    AtMost φ (m + n) (p >>= f) := by
  induction h with
  | ret a => exact (hf a).mono (Nat.le_add_left _ _)
  | other h _ ih => exact .other h ih
  | @one m r k _ ih =>
    rw [Nat.add_right_comm]
    exact .one ih

theorem Only.atMost {P : ρ → Prop} (h : Only P p) (hP : ∀ r, P r → ¬φ r) : AtMost φ n p := by
  induction h with
  | ret a => exact .ret a
  | call h _ ih => exact .other (hP _ h) ih

end

/-! ## Programs that can fail -/

section
variable {ε : Type}

def fails (c : Prop) [Decidable c] (e : ε) : ExceptT ε (Prog ρ reply) Unit := if c then throw e else pure ()

/-- The result of a program, its error included. -/
def attempt (x : ExceptT ε (Prog ρ reply) α) : ExceptT ε (Prog ρ reply) (Except ε α) := ExceptT.lift x.run

/-- A request whose reply is no failure. -/
def ask (r : ρ) : ExceptT ε (Prog ρ reply) (reply r) := ExceptT.lift (request r)

/-- A request whose reply can be a failure. -/
def query (r : ρ) (f : reply r → Except ε α) : ExceptT ε (Prog ρ reply) α := ExceptT.mk (call r fun x => ret (f x))

variable {P : ρ → Prop}

theorem Only.andThen {x : ExceptT ε (Prog ρ reply) α} {f : α → ExceptT ε (Prog ρ reply) β} (h : Only P x.run)
    (hf : ∀ a, Only P (f a).run) : Only P (x >>= f).run := by
  rw [ExceptT.run_bind]
  refine h.bind fun r => ?_
  cases r with
  | error e => exact .ret _
  | ok a => exact hf a

theorem AtMost.andThen {m n : Nat} {x : ExceptT ε (Prog ρ reply) α} {f : α → ExceptT ε (Prog ρ reply) β} (h : AtMost P m x.run)
    (hf : ∀ a, AtMost P n (f a).run) : AtMost P (m + n) (x >>= f).run := by
  rw [ExceptT.run_bind]
  refine h.bind fun r => ?_
  cases r with
  | error e => exact .ret _
  | ok a => exact hf a

theorem Only.fails (c : Prop) [Decidable c] (e : ε) : Only P (fails c e : ExceptT ε (Prog ρ reply) Unit).run := by
  unfold Prog.fails
  by_cases hc : c
  · rw [if_pos hc]
    exact .ret _
  · rw [if_neg hc]
    exact .ret _

theorem AtMost.after {n : Nat} {x : ExceptT ε (Prog ρ reply) α} {f : α → ExceptT ε (Prog ρ reply) β} (h : AtMost P 0 x.run)
    (hf : ∀ a, AtMost P n (f a).run) : AtMost P n (x >>= f).run := by
  have hn := h.andThen hf
  rwa [Nat.zero_add] at hn

theorem AtMost.attempt {n : Nat} {x : ExceptT ε (Prog ρ reply) α} (h : AtMost P n x.run) : AtMost P n (Prog.attempt x).run :=
  h.bind (n := 0) fun r => .ret (Except.ok r)

theorem Only.attempt {x : ExceptT ε (Prog ρ reply) α} (h : Only P x.run) : Only P (Prog.attempt x).run :=
  h.bind fun r => .ret (Except.ok r)

end

/-! ## Programs at once -/

/-- One program after the other. -/
def inTurn : List (Prog ρ reply α) → Prog ρ reply (List α)
  | [] => ret []
  | p :: ps => p >>= fun a => inTurn ps >>= fun as => ret (a :: as)

/-- Programs of one caller at once: the schedule says whose request is next, and at its end they go on in turn. -/
def join : List Nat → List (Prog ρ reply α) → Prog ρ reply (List α)
  | [], ps => inTurn ps
  | k :: schedule, ps =>
    match ps[k]? with
    | some (.call r f) => call r fun x => join schedule (ps.set k (f x))
    | _ => join schedule ps

end Prog

/-! ## Callers over one state -/

/-- How requests are answered, and the steps that no caller makes. -/
structure World (ι σ : Type) (ρ : Type u) (reply : ρ → Type) where
  exec : ι → (r : ρ) → σ → reply r → σ → Prop
  env : σ → σ → Prop

structure Config (ι σ : Type) (ρ : Type u) (reply : ρ → Type) (α : Type) where
  state : σ
  callers : ι → Option (Prog ρ reply α)

section
variable {ι σ : Type} {ρ : Type u} {reply : ρ → Type} {α β : Type}

/-- One step: a caller starts, a request is answered, or the state changes by itself. A caller that crashes makes no
further step. -/
inductive Step [DecidableEq ι] (W : World ι σ ρ reply) (entry : ι → Prog ρ reply α → Prop) :
    Config ι σ ρ reply α → Config ι σ ρ reply α → Prop
  | start {c : Config ι σ ρ reply α} {i : ι} {p : Prog ρ reply α} (hi : c.callers i = none) (hp : entry i p) :
      Step W entry c { c with callers := Function.update c.callers i (some p) }
  | call {c : Config ι σ ρ reply α} {i : ι} {r : ρ} {k : reply r → Prog ρ reply α} {x : reply r} {s : σ}
      (hi : c.callers i = some (.call r k)) (hx : W.exec i r c.state x s) :
      Step W entry c { state := s, callers := Function.update c.callers i (some (k x)) }
  | env {c : Config ι σ ρ reply α} {s : σ} (h : W.env c.state s) : Step W entry c { c with state := s }

def Steps [DecidableEq ι] (W : World ι σ ρ reply) (entry : ι → Prog ρ reply α → Prop) :
    Config ι σ ρ reply α → Config ι σ ρ reply α → Prop := Relation.ReflTransGen (Step W entry)

/-- Nobody has called yet. -/
def Config.initial (s : σ) : Config ι σ ρ reply α := ⟨s, fun _ => none⟩

/-! ## Invariant, guarantee and the rule for a program -/

/-- An invariant, what a caller's steps do to the state, and what holds for a caller before it starts. -/
structure Contract (ι σ : Type) where
  inv : σ → Prop
  guar : ι → σ → σ → Prop
  fresh : ι → σ → Prop

variable (W : World ι σ ρ reply) (S : Contract ι σ)

/-- What neither the others nor the environment can change. -/
def Stable (i : ι) (P : σ → Prop) : Prop :=
  ∀ s s', S.inv s → S.inv s' → P s → (W.env s s' ∨ ∃ j, j ≠ i ∧ S.guar j s s') → P s'

/-- From `P`, the program of `i` keeps the contract and returns only with `Q`. -/
inductive Valid (i : ι) (Q : α → σ → Prop) : (σ → Prop) → Prog ρ reply α → Prop
  | ret {P : σ → Prop} {a : α} (h : ∀ s, S.inv s → P s → Q a s) : Valid i Q P (.ret a)
  | call {P : σ → Prop} {r : ρ} {k : reply r → Prog ρ reply α} (M : reply r → σ → Prop)
      (stable : ∀ x, Stable W S i (M x))
      (post : ∀ s x s', S.inv s → P s → W.exec i r s x s' → S.inv s' ∧ S.guar i s s' ∧ M x s')
      (next : ∀ x, Valid i Q (M x) (k x)) : Valid i Q P (.call r k)

variable {W S} {i : ι} {P P' : σ → Prop} {Q Q' : α → σ → Prop} {p : Prog ρ reply α}

theorem Stable.and (h : Stable W S i P) (h' : Stable W S i P') : Stable W S i fun s => P s ∧ P' s :=
  fun s s' hs hs' hp hr => ⟨h s s' hs hs' hp.1 hr, h' s s' hs hs' hp.2 hr⟩

theorem Stable.or (h : Stable W S i P) (h' : Stable W S i P') : Stable W S i fun s => P s ∨ P' s := by
  intro s s' hs hs' hp hr
  rcases hp with hp | hp
  · exact .inl (h s s' hs hs' hp hr)
  · exact .inr (h' s s' hs hs' hp hr)

theorem Stable.ofOk {ε : Type} (h : ∀ a, Stable W S i (Q a)) (r : Except ε α) :
    Stable W S i fun s => ∀ a, r = .ok a → Q a s :=
  fun s s' hs hs' hq hr a ha => h a s s' hs hs' (hq a ha) hr

theorem Stable.const (c : Prop) : Stable W S i fun _ => c := fun _ _ _ _ h _ => h

theorem Valid.weaken (h : Valid W S i Q P p) (hp : ∀ s, S.inv s → P' s → P s) : Valid W S i Q P' p := by
  cases h with
  | ret h => exact .ret fun s hs h' => h s hs (hp s hs h')
  | call M stable post next => exact .call M stable (fun s x s' hs h' => post s x s' hs (hp s hs h')) next

theorem Valid.post (h : Valid W S i Q P p) (hq : ∀ a s, S.inv s → Q a s → Q' a s) : Valid W S i Q' P p := by
  induction h with
  | ret h => exact .ret fun s hs hp => hq _ s hs (h s hs hp)
  | call M stable post _ ih => exact .call M stable post ih

theorem Valid.bind {R : β → σ → Prop} {f : α → Prog ρ reply β} (h : Valid W S i Q P p)
    (hf : ∀ a, Valid W S i R (Q a) (f a)) : Valid W S i R P (p >>= f) := by
  induction h with
  | ret h => exact (hf _).weaken h
  | call M stable post _ ih => exact .call M stable post ih

/-- From a state that cannot be, everything is valid. -/
theorem Valid.never (p : Prog ρ reply α) : Valid W S i Q (fun _ => False) p := by
  induction p with
  | ret a => exact .ret fun _ _ h => h.elim
  | call r k ih => exact .call (fun _ _ => False) (fun _ => .const False) (fun _ _ _ _ h => h.elim) ih

/-- A fact is as stable under an invariant that says more. -/
theorem Stable.strengthen {S' : Contract ι σ} (h : Stable W S i P) (hguar : S'.guar = S.guar) (hinv : ∀ s, S'.inv s → S.inv s) :
    Stable W S' i P := by
  intro s s' hs hs' hp hr
  rw [hguar] at hr
  exact h s s' (hinv s hs) (hinv s' hs') hp hr

/-- A program is as valid under an invariant that says more, where the guarantee keeps what it adds. -/
theorem Valid.strengthen {S' : Contract ι σ} (h : Valid W S i Q P p) (hguar : S'.guar = S.guar) (hinv : ∀ s, S'.inv s → S.inv s)
    (hkeep : ∀ s s', S'.inv s → S.inv s' → S.guar i s s' → S'.inv s') : Valid W S' i Q P p := by
  induction h with
  | ret h => exact .ret fun s hs hp => h s (hinv s hs) hp
  | call M stable post _ ih =>
    refine .call M (fun x => (stable x).strengthen hguar hinv) ?_ ih
    intro s x s' hs hp hx
    obtain ⟨hs', hg, hm⟩ := post s x s' (hinv s hs) hp hx
    exact ⟨hkeep s s' hs hs' hg, hguar ▸ hg, hm⟩

/-- What nobody takes away, the caller itself included, holds through the program. -/
theorem Valid.frame {R : σ → Prop} (h : Valid W S i Q P p) (hst : Stable W S i R)
    (hown : ∀ s s', S.inv s → S.inv s' → S.guar i s s' → R s → R s') :
    Valid W S i (fun a s => Q a s ∧ R s) (fun s => P s ∧ R s) p := by
  induction h with
  | ret h => exact .ret fun s hs hp => ⟨h s hs hp.1, hp.2⟩
  | call M stable post _ ih =>
    refine .call (fun x s => M x s ∧ R s) (fun x => (stable x).and hst) ?_ ih
    intro s x s' hs hp hx
    obtain ⟨hs', hg, hm⟩ := post s x s' hs hp.1 hx
    exact ⟨hs', hg, hm, hown s s' hs hs' hg hp.2⟩

theorem Valid.request {r : ρ} {M : reply r → σ → Prop} (stable : ∀ x, Stable W S i (M x))
    (post : ∀ s x s', S.inv s → P s → W.exec i r s x s' → S.inv s' ∧ S.guar i s s' ∧ M x s') :
    Valid W S i M P (Prog.request r) :=
  .call M stable post fun _ => .ret fun _ _ h => h

/-! ## The rule for programs that can fail -/

variable (W S) in
/-- From `P`, the program keeps the contract and succeeds only with `Q`. -/
def Ensures {ε : Type} (i : ι) (P : σ → Prop) (x : ExceptT ε (Prog ρ reply) α) (Q : α → σ → Prop) : Prop :=
  Valid W S i (fun r s => ∀ a, r = .ok a → Q a s) P x.run

variable (W S) in
/-- What nobody takes away. -/
def Lasting (R : σ → Prop) : Prop :=
  ∀ s s', S.inv s → S.inv s' → (W.env s s' ∨ ∃ j, S.guar j s s') → R s → R s'

theorem Lasting.stable {R : σ → Prop} (h : Lasting W S R) (i : ι) : Stable W S i R := by
  intro s s' hs hs' hR hr
  refine h s s' hs hs' ?_ hR
  rcases hr with he | ⟨j, -, hj⟩
  · exact .inl he
  · exact .inr ⟨j, hj⟩

section
variable {ε : Type} {x : ExceptT ε (Prog ρ reply) α} {R : β → σ → Prop}

theorem Ensures.weaken (h : Ensures W S i P x Q) (hp : ∀ s, S.inv s → P' s → P s) : Ensures W S i P' x Q :=
  Valid.weaken h hp

theorem Ensures.post (h : Ensures W S i P x Q) (hq : ∀ a s, S.inv s → Q a s → Q' a s) : Ensures W S i P x Q' :=
  Valid.post h fun _ s hs hr a ha => hq a s hs (hr a ha)

theorem Ensures.pure {a : α} (h : ∀ s, S.inv s → P s → Q a s) :
    Ensures W S i P (Pure.pure a : ExceptT ε (Prog ρ reply) α) Q := by
  refine Valid.ret fun s hs hp b hb => ?_
  cases hb
  exact h s hs hp

theorem Ensures.throw {e : ε} : Ensures W S i P (MonadExcept.throw e : ExceptT ε (Prog ρ reply) α) Q :=
  Valid.ret fun _ _ _ _ hb => nomatch hb

theorem Ensures.bind {f : α → ExceptT ε (Prog ρ reply) β} (h : Ensures W S i P x Q)
    (hf : ∀ a, Ensures W S i (Q a) (f a) R) : Ensures W S i P (x >>= f) R := by
  unfold Ensures
  rw [ExceptT.run_bind]
  refine Valid.bind h fun r => ?_
  cases r with
  | ok a => exact Valid.weaken (hf a) fun s _ hr => hr a rfl
  | error e => exact .ret fun _ _ _ _ hb => nomatch hb

/-- What does not depend on the state is known from there on. -/
theorem Ensures.known {c : Prop} (h : c → Ensures W S i (fun _ => True) x Q) : Ensures W S i (fun _ => c) x Q := by
  by_cases hc : c
  · exact (h hc).weaken fun _ _ _ => trivial
  · exact Valid.weaken (.never _) fun _ _ h' => hc h'

theorem Ensures.andThen {A : α → Prop} {f : α → ExceptT ε (Prog ρ reply) β} (h : Ensures W S i P x fun a _ => A a)
    (hf : ∀ a, A a → Ensures W S i (fun _ => True) (f a) R) : Ensures W S i P (x >>= f) R :=
  h.bind fun a => .known (hf a)

theorem Ensures.fails {c : Prop} [Decidable c] {e : ε} :
    Ensures W S i P (Prog.fails c e : ExceptT ε (Prog ρ reply) Unit) fun _ s => P s ∧ ¬c := by
  unfold Prog.fails
  by_cases h : c
  · rw [if_pos h]; exact .throw
  · rw [if_neg h]; exact .pure fun s _ hp => ⟨hp, h⟩

theorem Ensures.lift {p : Prog ρ reply α} (h : Valid W S i Q P p) :
    Ensures W S i P (ExceptT.lift p : ExceptT ε (Prog ρ reply) α) Q := by
  change Valid W S i _ P (p >>= fun a => .ret (Except.ok a))
  refine Valid.bind h fun a => .ret fun s _ hq b hb => ?_
  cases hb
  exact hq

theorem Ensures.attempt (h : Ensures W S i P x Q) :
    Ensures W S i P (Prog.attempt x) fun r s => ∀ a, r = .ok a → Q a s := Ensures.lift h

theorem Ensures.ask {r : ρ} {M : reply r → σ → Prop} (stable : ∀ x, Stable W S i (M x))
    (post : ∀ s x s', S.inv s → P s → W.exec i r s x s' → S.inv s' ∧ S.guar i s s' ∧ M x s') :
    Ensures W S i P (Prog.ask r : ExceptT ε (Prog ρ reply) (reply r)) M := Ensures.lift (.request stable post)

theorem Ensures.query {r : ρ} {f : reply r → Except ε α} (stable : ∀ a, Stable W S i (Q a))
    (post : ∀ s x s', S.inv s → P s → W.exec i r s x s' → S.inv s' ∧ S.guar i s s' ∧ ∀ a, f x = .ok a → Q a s') :
    Ensures W S i P (Prog.query r f) Q :=
  Valid.call (fun x s => ∀ a, f x = .ok a → Q a s) (fun x => Stable.ofOk stable (f x)) post
    fun _ => .ret fun _ _ h => h

/-- What nobody takes away holds through the program. -/
theorem Ensures.frame {F : σ → Prop} (h : Ensures W S i P x Q) (hF : Lasting W S F) :
    Ensures W S i (fun s => P s ∧ F s) x fun a s => Q a s ∧ F s := by
  have hv := Valid.frame h (hF.stable i) fun s s' hs hs' hg hR => hF s s' hs hs' (.inr ⟨i, hg⟩) hR
  exact Valid.post hv fun r s _ hr a ha => ⟨hr.1 a ha, hr.2⟩

end

theorem Ensures.carry {ε : Type} {x : ExceptT ε (Prog ρ reply) α} {R : β → σ → Prop} {A : α → Prop} {F : σ → Prop}
    {f : α → ExceptT ε (Prog ρ reply) β} (hF : Lasting W S F) (h : Ensures W S i (fun _ => True) x fun a _ => A a)
    (hf : ∀ a, A a → Ensures W S i F (f a) R) : Ensures W S i F (x >>= f) R := by
  refine ((h.frame hF).weaken fun _ _ hs => ⟨trivial, hs⟩).bind fun a => ?_
  by_cases ha : A a
  · exact (hf a ha).weaken fun _ _ hs => hs.2
  · exact Valid.weaken (.never _) fun _ _ hs => ha hs.1

/-! ## Programs of one caller at once -/

variable (W S) in
/-- From `P`, the program keeps the contract, also where the caller makes other steps in between. -/
inductive Safe (i : ι) : (σ → Prop) → Prog ρ reply α → Prop
  | ret {P : σ → Prop} (a : α) : Safe i P (.ret a)
  | call {P : σ → Prop} {r : ρ} {k : reply r → Prog ρ reply α} (M : reply r → σ → Prop)
      (lasting : ∀ x, Lasting W S (M x))
      (post : ∀ s x s', S.inv s → P s → W.exec i r s x s' → S.inv s' ∧ S.guar i s s' ∧ M x s')
      (next : ∀ x, Safe i (M x) (k x)) : Safe i P (.call r k)

theorem Safe.valid (h : Safe W S i P p) : Valid W S i (fun _ _ => True) P p := by
  induction h with
  | ret a => exact .ret fun _ _ _ => trivial
  | call M lasting post _ ih => exact .call M (fun x => (lasting x).stable i) post ih

theorem Safe.weaken (h : Safe W S i P p) (hp : ∀ s, S.inv s → P' s → P s) : Safe W S i P' p := by
  cases h with
  | ret a => exact .ret a
  | call M lasting post next => exact .call M lasting (fun s x s' hs h' => post s x s' hs (hp s hs h')) next

theorem Lasting.ofOk {ε : Type} (h : ∀ a, Lasting W S (Q a)) (r : Except ε α) :
    Lasting W S fun s => ∀ a, r = .ok a → Q a s :=
  fun s s' hs hs' hr hq a ha => h a s s' hs hs' hr (hq a ha)

/-- A program that can fail and begins with a request. -/
theorem Safe.query {ε : Type} {r : ρ} {f : reply r → Except ε α} {g : α → ExceptT ε (Prog ρ reply) β}
    (lasting : ∀ a, Lasting W S (Q a))
    (post : ∀ s x s', S.inv s → P s → W.exec i r s x s' → S.inv s' ∧ S.guar i s s' ∧ ∀ a, f x = .ok a → Q a s')
    (next : ∀ a, Safe W S i (Q a) (g a).run) : Safe W S i P (Prog.query r f >>= g).run := by
  refine Safe.call (fun x s => ∀ a, f x = .ok a → Q a s) (fun x => .ofOk lasting (f x)) post fun x => ?_
  change Safe W S i _ (ExceptT.bindCont g (f x))
  cases hx : f x with
  | error e => exact .ret _
  | ok a => exact (next a).weaken fun s _ h => h a rfl

variable (W S) in
/-- Each program is safe from an assertion that nobody takes away. -/
def SafeFrom (i : ι) : List (σ → Prop) → List (Prog ρ reply α) → Prop :=
  List.Forall₂ fun P p => Lasting W S P ∧ Safe W S i P p

theorem SafeFrom.lasting {Ps : List (σ → Prop)} {ps : List (Prog ρ reply α)} (h : SafeFrom W S i Ps ps) :
    Lasting W S fun s => ∀ P ∈ Ps, P s := by
  intro s s' hs hs' hr hP P hm
  obtain ⟨hlen, hget⟩ := List.forall₂_iff_get.mp h
  obtain ⟨n, hn, rfl⟩ := List.mem_iff_getElem.mp hm
  exact (hget n hn (hlen ▸ hn)).1 s s' hs hs' hr (hP _ hm)

theorem Valid.inTurn {Ps : List (σ → Prop)} {ps : List (Prog ρ reply α)} (h : SafeFrom W S i Ps ps) :
    Valid W S i (fun _ _ => True) (fun s => ∀ P ∈ Ps, P s) (Prog.inTurn ps) := by
  induction h with
  | nil => exact .ret fun _ _ _ => trivial
  | @cons P p Ps ps hp h ih =>
    have hrest : Lasting W S fun s => ∀ P ∈ Ps, P s := SafeFrom.lasting h
    have hfirst := Valid.frame hp.2.valid (hrest.stable i) fun s s' hs hs' hg hR => hrest s s' hs hs' (.inr ⟨i, hg⟩) hR
    have hpre : Valid W S i _ (fun s => ∀ P' ∈ P :: Ps, P' s) p := hfirst.weaken fun s _ hP =>
      ⟨hP P List.mem_cons_self, fun P' hm => hP P' (List.mem_cons_of_mem P hm)⟩
    exact hpre.bind fun a => (ih.weaken fun s _ hR => hR.2).bind fun as => .ret fun _ _ _ => trivial

/-- Safe programs may run at once. -/
theorem Valid.join (schedule : List Nat) {Ps : List (σ → Prop)} {ps : List (Prog ρ reply α)} (h : SafeFrom W S i Ps ps) :
    Valid W S i (fun _ _ => True) (fun s => ∀ P ∈ Ps, P s) (Prog.join schedule ps) := by
  induction schedule generalizing Ps ps with
  | nil => exact .inTurn h
  | cons k schedule ih =>
    unfold Prog.join
    split
    · rename_i r f hk
      obtain ⟨hlen, hget⟩ := List.forall₂_iff_get.mp h
      obtain ⟨hkp, hkf⟩ := List.getElem?_eq_some_iff.mp hk
      have hsafe := (hget k (hlen ▸ hkp) hkp).2
      simp only [List.get_eq_getElem, hkf] at hsafe
      cases hsafe with
      | call M lasting post next =>
        have hnext : ∀ x, SafeFrom W S i (Ps.set k (M x)) (ps.set k (f x)) := by
          intro x
          refine List.forall₂_iff_get.mpr ⟨by simp [hlen], fun n hn hn' => ?_⟩
          simp only [List.get_eq_getElem, List.getElem_set]
          by_cases hkn : k = n
          · rw [if_pos hkn, if_pos hkn]
            exact ⟨lasting x, next x⟩
          · rw [if_neg hkn, if_neg hkn]
            exact hget n (by simpa using hn) (by simpa using hn')
        refine .call (fun x s => ∀ P ∈ Ps.set k (M x), P s) (fun x => (hnext x).lasting.stable i) ?_ fun x => ih (hnext x)
        intro s x s' hs hP hx
        obtain ⟨hs', hg, hm⟩ := post s x s' hs (hP _ (List.getElem_mem _)) hx
        refine ⟨hs', hg, fun P hmem => ?_⟩
        rcases List.mem_or_eq_of_mem_set hmem with hmem | rfl
        · exact h.lasting s s' hs hs' (.inr ⟨i, hg⟩) hP P hmem
        · exact hm
    · exact ih h

/-! ## Soundness -/

section
variable {entry : ι → Prog ρ reply α → Prop} {Q : ι → α → σ → Prop}

variable (W S) in
/-- What a caller knows, before it starts and at its next step. -/
def Knows (Q : ι → α → σ → Prop) (i : ι) : Option (Prog ρ reply α) → σ → Prop
  | none, s => S.fresh i s
  | some p, s => ∃ P, P s ∧ Stable W S i P ∧ Valid W S i (Q i) P p

variable (W S) in
/-- The invariant holds, and each caller knows enough to go on. -/
def Good (Q : ι → α → σ → Prop) (c : Config ι σ ρ reply α) : Prop :=
  S.inv c.state ∧ ∀ i, Knows W S Q i (c.callers i) c.state

variable (W S) in
/-- What the programs and the environment have to meet. -/
structure Sound (entry : ι → Prog ρ reply α → Prop) (Q : ι → α → σ → Prop) : Prop where
  env : ∀ s s', S.inv s → W.env s s' → S.inv s'
  fresh : ∀ i, Stable W S i (S.fresh i)
  entry : ∀ i p, entry i p → Valid W S i (Q i) (S.fresh i) p

theorem Good.initial {s : σ} (hs : S.inv s) (hf : ∀ i, S.fresh i s) : Good W S Q (.initial s) := ⟨hs, hf⟩

/-- A step of another caller or of the environment takes no knowledge away. -/
theorem Knows.stable (hS : Sound W S entry Q) {o : Option (Prog ρ reply α)} {s s' : σ} (h : Knows W S Q i o s)
    (hs : S.inv s) (hs' : S.inv s') (hr : W.env s s' ∨ ∃ j, j ≠ i ∧ S.guar j s s') : Knows W S Q i o s' := by
  cases o with
  | none => exact hS.fresh i s s' hs hs' h hr
  | some p =>
    obtain ⟨P, hP, hst, hv⟩ := h
    exact ⟨P, hst s s' hs hs' hP hr, hst, hv⟩

/-- One request of a caller that knows enough. -/
theorem Knows.call {r : ρ} {k : reply r → Prog ρ reply α} {s s' : σ} {x : reply r}
    (h : Knows W S Q i (some (.call r k)) s) (hs : S.inv s) (hx : W.exec i r s x s') :
    S.inv s' ∧ S.guar i s s' ∧ Knows W S Q i (some (k x)) s' := by
  obtain ⟨P, hP, -, hv⟩ := h
  cases hv with
  | call M stable post next =>
    obtain ⟨hinv, hg, hM⟩ := post s x s' hs hP hx
    exact ⟨hinv, hg, M x, hM, stable x, next x⟩

/-- A program that has returned meets its postcondition, now and later. -/
theorem Good.returned {c : Config ι σ ρ reply α} (h : Good W S Q c) {i : ι} {a : α} (hi : c.callers i = some (.ret a)) :
    Q i a c.state := by
  have hc := h.2 i
  rw [hi] at hc
  obtain ⟨P, hP, -, hv⟩ := hc
  cases hv with
  | ret hq => exact hq c.state h.1 hP

variable [DecidableEq ι]

/-- What a step does to the state: nothing, a guaranteed change of one caller, or a step of the environment. -/
theorem Good.step_cases {c d : Config ι σ ρ reply α} (h : Good W S Q c) (hd : Step W entry c d) :
    d.state = c.state ∨ (∃ i, c.callers i ≠ none ∧ S.guar i c.state d.state) ∨ W.env c.state d.state := by
  cases hd with
  | start hi hp => exact .inl rfl
  | env he => exact .inr (.inr he)
  | @call i r k x s hi hx =>
    have hc := h.2 i
    rw [hi] at hc
    exact .inr (.inl ⟨i, by rw [hi]; simp, (hc.call h.1 hx).2.1⟩)

theorem Good.step {c d : Config ι σ ρ reply α} (hS : Sound W S entry Q) (h : Good W S Q c) (hd : Step W entry c d) :
    Good W S Q d := by
  cases hd with
  | @start i p hi hp =>
    refine ⟨h.1, fun j => ?_⟩
    have hj := h.2 j
    by_cases e : j = i
    · subst e
      rw [hi] at hj
      simp only [Function.update_self]
      exact ⟨S.fresh j, hj, hS.fresh j, hS.entry j p hp⟩
    · simp only [Function.update_of_ne e]
      exact hj
  | env he => exact ⟨hS.env _ _ h.1 he, fun j => (h.2 j).stable hS h.1 (hS.env _ _ h.1 he) (.inl he)⟩
  | @call i r k x s hi hx =>
    have hc := h.2 i
    rw [hi] at hc
    obtain ⟨hinv, hg, hk⟩ := hc.call h.1 hx
    refine ⟨hinv, fun j => ?_⟩
    by_cases e : j = i
    · subst e
      simp only [Function.update_self]
      exact hk
    · simp only [Function.update_of_ne e]
      exact (h.2 j).stable hS h.1 hinv (.inr ⟨i, Ne.symm e, hg⟩)

theorem Good.steps {c d : Config ι σ ρ reply α} (hS : Sound W S entry Q) (h : Good W S Q c) (hd : Steps W entry c d) :
    Good W S Q d := by
  induction hd with
  | refl => exact h
  | tail _ hstep ih => exact ih.step hS hstep

/-- What every kind of step keeps, every run keeps. -/
theorem Good.steps_invariant {c d : Config ι σ ρ reply α} (hS : Sound W S entry Q) (h : Good W S Q c)
    (hd : Steps W entry c d) {J : σ → Prop} (hg : ∀ i s s', S.inv s → J s → S.guar i s s' → J s')
    (he : ∀ s s', S.inv s → J s → W.env s s' → J s') (hJ : J c.state) : J d.state := by
  induction hd with
  | refl => exact hJ
  | @tail b e hb hstep ih =>
    have hgood := h.steps hS hb
    rcases hgood.step_cases hstep with heq | ⟨i, -, hgi⟩ | henv
    · rw [heq]; exact ih
    · exact hg i _ _ hgood.1 ih hgi
    · exact he _ _ hgood.1 ih henv

end

end

end Concurrent
