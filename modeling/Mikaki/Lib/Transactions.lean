import Mikaki.Lib.Concurrent

/-!
# Transactions from many callers

A database changes by transactions, each atomic, and by what drifts outside
the callers. A caller reads the database, commits a transaction or notes an
event of its own. The reply to a commit can be lost: then the transaction was
applied, or it was not, or it is applied later. The log says who applied what
to which database, in order.
-/

namespace Transactions

open Concurrent Concurrent.Prog

/-- The transactions of a database, and how it changes from outside. -/
structure System (δ τ : Type) where
  run : τ → δ → Option δ
  drift : δ → δ → Prop

structure Entry (ι δ τ : Type) where
  caller : ι
  tx : τ
  before : δ

structure Shared (ι δ τ : Type) where
  db : δ
  log : List (Entry ι δ τ)
  flight : List (ι × τ)

/-- A note is applied where it is made, and its reply is not lost. The reply to a commit shows what it was applied to: the rows
it has changed or returned can be computed from it. -/
inductive Request (ε δ τ : Type) where
  | read
  | commit (tx : τ)
  | note (tx : τ)

def Request.Reply {ε δ τ : Type} : Request ε δ τ → Type
  | read => Except ε δ
  | commit _ => Except ε δ
  | note _ => Unit

/-- A program of one caller. -/
abbrev Calls (ε δ τ : Type) := ExceptT ε (Prog (Request ε δ τ) Request.Reply)

section
variable {ε δ τ : Type}

def read : Calls ε δ τ δ := query (.read : Request ε δ τ) id

/-- A commit, with the database before it. -/
def perform (tx : τ) : Calls ε δ τ δ := query (.commit tx : Request ε δ τ) id

def commit (tx : τ) : Calls ε δ τ Unit := query (.commit tx : Request ε δ τ) (Except.map fun _ => ())

def note (tx : τ) : Calls ε δ τ Unit := query (.note tx : Request ε δ τ) .ok

end

section
variable {ι ε δ τ : Type}

/-- The transaction of `i` was applied and has left `d`. -/
def Shared.apply (s : Shared ι δ τ) (i : ι) (tx : τ) (d : δ) : Shared ι δ τ :=
  { s with db := d, log := s.log ++ [⟨i, tx, s.db⟩] }

inductive Exec (Y : System δ τ) (i : ι) (s : Shared ι δ τ) : (r : Request ε δ τ) → r.Reply → Shared ι δ τ → Prop
  | read : Exec Y i s .read (.ok s.db) s
  | readFails (e : ε) : Exec Y i s .read (.error e) s
  | commit {tx : τ} {d : δ} (h : Y.run tx s.db = some d) : Exec Y i s (.commit tx) (.ok s.db) (s.apply i tx d)
  | commitLost {tx : τ} {d : δ} (e : ε) (h : Y.run tx s.db = some d) :
      Exec Y i s (.commit tx) (.error e) (s.apply i tx d)
  | commitFails {tx : τ} (e : ε) : Exec Y i s (.commit tx) (.error e) s
  | commitFlies {tx : τ} (e : ε) : Exec Y i s (.commit tx) (.error e) { s with flight := (i, tx) :: s.flight }
  | note {tx : τ} {d : δ} (h : Y.run tx s.db = some d) : Exec Y i s (.note tx) () (s.apply i tx d)

inductive Env (Y : System δ τ) (s : Shared ι δ τ) : Shared ι δ τ → Prop
  | late {i : ι} {tx : τ} {before after : List (ι × τ)} {d : δ} (hf : s.flight = before ++ (i, tx) :: after)
      (h : Y.run tx s.db = some d) : Env Y s { s.apply i tx d with flight := before ++ after }
  | givenUp {i : ι} {tx : τ} {before after : List (ι × τ)} (hf : s.flight = before ++ (i, tx) :: after) :
      Env Y s { s with flight := before ++ after }
  | drift {d : δ} (h : Y.drift s.db d) : Env Y s { s with db := d }

def world (Y : System δ τ) : World ι (Shared ι δ τ) (Request ε δ τ) Request.Reply :=
  ⟨fun i r s x s' => Exec Y i s r x s', Env Y⟩

def Shared.initial (d : δ) : Shared ι δ τ := { db := d, log := [], flight := [] }

/-! ## A caller by itself -/

/-- What a program returns where nothing else happens and no reply is lost; a transaction that is refused answers `e`. -/
def alone {α : Type} (Y : System δ τ) (e : ε) : Prog (Request ε δ τ) Request.Reply α → δ → α × δ
  | .ret a, d => (a, d)
  | .call .read k, d => alone Y e (k (.ok d)) d
  | .call (.commit tx) k, d =>
    match Y.run tx d with
    | some d' => alone Y e (k (.ok d)) d'
    | none => alone Y e (k (.error e)) d
  | .call (.note tx) k, d => alone Y e (k ()) ((Y.run tx d).getD d)

theorem alone_bind {α β : Type} (Y : System δ τ) (e : ε) (p : Prog (Request ε δ τ) Request.Reply α)
    (f : α → Prog (Request ε δ τ) Request.Reply β) (d : δ) :
    alone Y e (p >>= f) d = alone Y e (f (alone Y e p d).1) (alone Y e p d).2 := by
  induction p generalizing d with
  | ret a => rfl
  | call r k ih =>
    cases r with
    | read => exact ih (.ok d) d
    | commit tx =>
      cases hr : Y.run tx d with
      | none =>
        simp only [call_bind, alone, hr]
        exact ih (.error e) d
      | some d' =>
        simp only [call_bind, alone, hr]
        exact ih (.ok d) d'
    | note tx => exact ih () _

theorem alone_run_bind {α β : Type} {Y : System δ τ} {e : ε} {x : Calls ε δ τ α} (f : α → Calls ε δ τ β) {d d' : δ} {a : α}
    (h : alone Y e x.run d = (.ok a, d')) : alone Y e (x >>= f).run d = alone Y e (f a).run d' := by
  rw [ExceptT.run_bind, alone_bind, h]

/-- The request reads, or commits a transaction of `φ`. -/
def Request.commits (φ : τ → Prop) : Request ε δ τ → Prop
  | .read => True
  | .commit tx => φ tx
  | .note _ => False

/-- What a program does by itself, it does in some run; what its transactions keep holds there in the end. -/
theorem steps_alone_kept {α : Type} [DecidableEq ι] {Y : System δ τ} {e : ε} {i : ι} {φ : τ → Prop}
    {R : δ → List (Entry ι δ τ) → Prop} (hR : ∀ tx d d' l, φ tx → R d l → Y.run tx d = some d' → R d' (l ++ [⟨i, tx, d⟩]))
    {entry : ι → Prog (Request ε δ τ) Request.Reply α → Prop} {p : Prog (Request ε δ τ) Request.Reply α}
    (h : Prog.Only (Request.commits φ) p) {c : Config ι (Shared ι δ τ) (Request ε δ τ) Request.Reply α}
    (hi : c.callers i = some p) (hc : R c.state.db c.state.log) :
    ∃ c', Steps (world Y) entry c c' ∧ c'.state.db = (alone Y e p c.state.db).2 ∧
      c'.callers = Function.update c.callers i (some (.ret (alone Y e p c.state.db).1)) ∧ R c'.state.db c'.state.log := by
  induction h generalizing c with
  | ret a => exact ⟨c, .refl, rfl, (Function.update_eq_self_iff.mpr hi.symm).symm, hc⟩
  | @call r k hr _ ih =>
    have hgo : ∀ {x : r.Reply} {s : Shared ι δ τ}, Exec Y i c.state r x s → R s.db s.log →
        ∃ c', Steps (world Y) entry c c' ∧ c'.state.db = (alone Y e (k x) s.db).2 ∧
          c'.callers = Function.update c.callers i (some (.ret (alone Y e (k x) s.db).1)) ∧ R c'.state.db c'.state.log := by
      intro x s hx hs
      obtain ⟨c', hsteps, hdb, hcal, hkept⟩ := ih x (c := ⟨s, Function.update c.callers i (some (k x))⟩) (Function.update_self i _ _) hs
      refine ⟨c', .head (.call hi hx) hsteps, hdb, ?_, hkept⟩
      rw [hcal, Function.update_idem]
    cases r with
    | read => exact hgo .read hc
    | commit tx =>
      cases hrun : Y.run tx c.state.db with
      | none =>
        obtain ⟨c', hs, hdb, hcal, hkept⟩ := hgo (.commitFails e) hc
        exact ⟨c', hs, by simpa only [alone, hrun, Shared.apply] using hdb, by simpa only [alone, hrun, Shared.apply] using hcal, hkept⟩
      | some d =>
        obtain ⟨c', hs, hdb, hcal, hkept⟩ := hgo (.commit hrun) (hR tx _ _ _ hr hc hrun)
        exact ⟨c', hs, by simpa only [alone, hrun, Shared.apply] using hdb, by simpa only [alone, hrun, Shared.apply] using hcal, hkept⟩
    | note tx => exact hr.elim

/-- What a program does by itself, it does in some run, unless it notes something. -/
theorem steps_alone {α : Type} [DecidableEq ι] {Y : System δ τ} {e : ε} {i : ι}
    {entry : ι → Prog (Request ε δ τ) Request.Reply α → Prop} {p : Prog (Request ε δ τ) Request.Reply α}
    (h : Prog.Only (∀ tx, · ≠ .note tx) p) {c : Config ι (Shared ι δ τ) (Request ε δ τ) Request.Reply α}
    (hi : c.callers i = some p) :
    ∃ c', Steps (world Y) entry c c' ∧ c'.state.db = (alone Y e p c.state.db).2 ∧
      c'.callers = Function.update c.callers i (some (.ret (alone Y e p c.state.db).1)) := by
  have honly : Prog.Only (Request.commits fun _ => True) p := h.weaken fun r hr => by
    cases r with
    | read => trivial
    | commit tx => trivial
    | note tx => exact hr tx rfl
  obtain ⟨c', hs, hdb, hcal, -⟩ := steps_alone_kept (e := e) (R := fun _ _ => True) (fun _ _ _ _ _ _ _ => trivial) honly hi trivial
  exact ⟨c', hs, hdb, hcal⟩

/-! ## A chosen run -/

/-- A caller starts, its next request is answered, or the database drifts. -/
inductive Move (ι ε δ τ α : Type) where
  | start (i : ι) (p : Prog (Request ε δ τ) Request.Reply α)
  | go (i : ι)
  | drift (f : δ → δ)

/-- The moves in turn, where no reply is lost; a transaction that is refused answers `e`. -/
def play {α : Type} [DecidableEq ι] (Y : System δ τ) (e : ε) :
    List (Move ι ε δ τ α) → Config ι (Shared ι δ τ) (Request ε δ τ) Request.Reply α →
      Option (Config ι (Shared ι δ τ) (Request ε δ τ) Request.Reply α)
  | [], c => some c
  | .start i p :: moves, c =>
    match c.callers i with
    | none => play Y e moves { c with callers := Function.update c.callers i (some p) }
    | some _ => none
  | .go i :: moves, c =>
    match c.callers i with
    | some (.call .read k) => play Y e moves ⟨c.state, Function.update c.callers i (some (k (.ok c.state.db)))⟩
    | some (.call (.commit tx) k) =>
      match Y.run tx c.state.db with
      | some d => play Y e moves ⟨c.state.apply i tx d, Function.update c.callers i (some (k (.ok c.state.db)))⟩
      | none => play Y e moves ⟨c.state, Function.update c.callers i (some (k (.error e)))⟩
    | some (.call (.note tx) k) =>
      match Y.run tx c.state.db with
      | some d => play Y e moves ⟨c.state.apply i tx d, Function.update c.callers i (some (k ()))⟩
      | none => none
    | _ => none
  | .drift f :: moves, c => play Y e moves { c with state := { c.state with db := f c.state.db } }

theorem play_steps {α : Type} [DecidableEq ι] {Y : System δ τ} {e : ε}
    {entry : ι → Prog (Request ε δ τ) Request.Reply α → Prop} {moves : List (Move ι ε δ τ α)}
    (hstart : ∀ i p, .start i p ∈ moves → entry i p) (hdrift : ∀ f, .drift f ∈ moves → ∀ d, Y.drift d (f d))
    {c c' : Config ι (Shared ι δ τ) (Request ε δ τ) Request.Reply α} (h : play Y e moves c = some c') :
    Steps (world Y) entry c c' := by
  induction moves generalizing c with
  | nil =>
    cases h
    exact .refl
  | cons m moves ih =>
    have hrest : ∀ {b}, Step (world Y) entry c b → play Y e moves b = some c' → Steps (world Y) entry c c' := by
      intro b hb hplay
      refine .head hb (ih (fun i p hm => ?_) (fun f hm => ?_) hplay)
      · exact hstart i p (List.mem_cons_of_mem _ hm)
      · exact hdrift f (List.mem_cons_of_mem _ hm)
    cases m with
    | start i p =>
      simp only [play] at h
      split at h
      · rename_i hi
        exact hrest (.start hi (hstart i p List.mem_cons_self)) h
      · cases h
    | go i =>
      simp only [play] at h
      split at h
      · rename_i hi
        exact hrest (.call hi .read) h
      · rename_i tx k hi
        split at h
        · rename_i hr
          exact hrest (.call hi (.commit hr)) h
        · exact hrest (.call hi (.commitFails e)) h
      · rename_i hi
        split at h
        · rename_i hr
          exact hrest (.call hi (.note hr)) h
        · cases h
      · cases h
    | drift f => exact hrest (.env (.drift (hdrift f List.mem_cons_self c.state.db))) h

/-! ## How often a caller sends -/

/-- The request sends a transaction of `φ`. -/
def Request.carries (φ : τ → Bool) : Request ε δ τ → Prop
  | .read => False
  | .commit tx | .note tx => φ tx = true

/-- How many transactions of `φ` the caller has sent that were applied or may still be. -/
def Shared.sentBy [DecidableEq ι] (s : Shared ι δ τ) (i : ι) (φ : τ → Bool) : Nat :=
  s.log.countP (fun e => e.caller = i && φ e.tx) + s.flight.countP (fun f => f.1 = i && φ f.2)

section
variable {α : Type} [DecidableEq ι] {Y : System δ τ} {s s' : Shared ι δ τ} {i : ι} {φ : τ → Bool} {n : Nat}

theorem sentBy_apply (s : Shared ι δ τ) (i j : ι) (φ : τ → Bool) (tx : τ) (d : δ) :
    (s.apply j tx d).sentBy i φ = s.sentBy i φ + if j = i && φ tx then 1 else 0 := by
  simp only [Shared.sentBy, Shared.apply, List.countP_append, List.countP_cons, List.countP_nil, Nat.zero_add]
  omega

/-- A request adds at most what it carries to what its caller has sent, and nothing to what others have sent. -/
theorem sentBy_exec {j : ι} {r : Request ε δ τ} {x : r.Reply} (h : Exec Y j s r x s') :
    s'.sentBy i φ ≤ s.sentBy i φ + 1 ∧ ((j ≠ i ∨ ¬r.carries φ) → s'.sentBy i φ ≤ s.sentBy i φ) := by
  have happly : ∀ (tx : τ) (d : δ), (s.apply j tx d).sentBy i φ ≤ s.sentBy i φ + 1 ∧
      ((j ≠ i ∨ ¬φ tx = true) → (s.apply j tx d).sentBy i φ ≤ s.sentBy i φ) := by
    intro tx d
    rw [sentBy_apply]
    by_cases hc : (j = i && φ tx) = true
    · rw [if_pos hc]
      simp only [Bool.and_eq_true, decide_eq_true_eq] at hc
      exact ⟨Nat.le_refl _, fun hn => by rcases hn with hn | hn; exacts [absurd hc.1 hn, absurd hc.2 hn]⟩
    · rw [if_neg hc]
      exact ⟨Nat.le_succ _, fun _ => Nat.le_refl _⟩
  cases h with
  | read | readFails | commitFails => exact ⟨Nat.le_succ _, fun _ => Nat.le_refl _⟩
  | commit h | commitLost _ h | note h => exact happly _ _
  | @commitFlies tx e =>
    simp only [Shared.sentBy, List.countP_cons]
    by_cases hc : (j = i && φ tx) = true
    · rw [if_pos hc]
      simp only [Bool.and_eq_true, decide_eq_true_eq] at hc
      exact ⟨by omega, fun hn => by rcases hn with hn | hn; exacts [absurd hc.1 hn, absurd hc.2 hn]⟩
    · rw [if_neg hc]
      exact ⟨by omega, fun _ => by omega⟩

theorem quiet_read : Prog.AtMost (Request.carries φ) n (read : Calls ε δ τ δ).run := .other id fun _ => .ret _

theorem sends_commit (tx : τ) : Prog.AtMost (Request.carries φ) 1 (commit tx : Calls ε δ τ Unit).run := .one fun _ => .ret _

theorem quiet_commit {tx : τ} (h : φ tx = false) : Prog.AtMost (Request.carries φ) n (commit tx : Calls ε δ τ Unit).run :=
  .other (fun hc => Bool.false_ne_true (h.symm.trans hc)) fun _ => .ret _

/-- What is late was sent before. -/
theorem sentBy_env (h : Env Y s s') : s'.sentBy i φ ≤ s.sentBy i φ := by
  cases h with
  | @late j tx before after d hf h =>
    simp only [Shared.sentBy, Shared.apply, hf, List.countP_append, List.countP_cons, List.countP_nil, Nat.zero_add]
    omega
  | givenUp hf =>
    simp only [Shared.sentBy, hf, List.countP_append, List.countP_cons]
    omega
  | drift h => exact Nat.le_refl _

/-- What the caller has sent and may still send. -/
def Bounded (φ : τ → Bool) (n : Nat) (o : Option (Prog (Request ε δ τ) Request.Reply α)) (sent : Nat) : Prop :=
  match o with
  | none => sent = 0
  | some p => ∃ m, Prog.AtMost (Request.carries φ) m p ∧ sent + m ≤ n

theorem Bounded.le {o : Option (Prog (Request ε δ τ) Request.Reply α)} {k l : Nat} (h : Bounded φ n o k) (hl : l ≤ k) :
    Bounded φ n o l := by
  cases o with
  | none => exact Nat.le_zero.mp (h ▸ hl)
  | some p =>
    obtain ⟨m, hm, hle⟩ := h
    exact ⟨m, hm, by omega⟩

theorem Bounded.step {entry : ι → Prog (Request ε δ τ) Request.Reply α → Prop}
    (he : ∀ p, entry i p → Prog.AtMost (Request.carries φ) n p)
    {c c' : Config ι (Shared ι δ τ) (Request ε δ τ) Request.Reply α} (h : Step (world Y) entry c c')
    (hc : Bounded φ n (c.callers i) (c.state.sentBy i φ)) : Bounded φ n (c'.callers i) (c'.state.sentBy i φ) := by
  cases h with
  | @start j p hj hp =>
    by_cases hji : i = j
    · subst hji
      rw [hj] at hc
      simp only [Function.update_self]
      exact ⟨n, he p hp, by rw [show c.state.sentBy i φ = 0 from hc]; omega⟩
    · simp only [Function.update_of_ne hji]
      exact hc
  | @call j r k x s hj hx =>
    have hx : Exec Y j c.state r x s := hx
    obtain ⟨hone, hsame⟩ := sentBy_exec (i := i) (φ := φ) hx
    by_cases hji : i = j
    · subst hji
      rw [hj] at hc
      obtain ⟨m, hm, hle⟩ := hc
      simp only [Function.update_self]
      cases hm with
      | other hr hk => exact ⟨m, hk x, by have := hsame (.inr hr); omega⟩
      | @one m _ _ hk => exact ⟨m, hk x, by omega⟩
    · simp only [Function.update_of_ne hji]
      exact hc.le (hsame (.inl (Ne.symm hji)))
  | env he => exact hc.le (sentBy_env he)

/-- Programs that send at most `n` transactions of a kind have at most `n` applied. -/
theorem Steps.atMost {entry : ι → Prog (Request ε δ τ) Request.Reply α → Prop}
    (he : ∀ p, entry i p → Prog.AtMost (Request.carries φ) n p) {d : δ}
    {c : Config ι (Shared ι δ τ) (Request ε δ τ) Request.Reply α} (h : Steps (world Y) entry (.initial (.initial d)) c) :
    c.state.log.countP (fun e => e.caller = i && φ e.tx) ≤ n := by
  have hb : Bounded φ n (c.callers i) (c.state.sentBy i φ) := by
    induction h with
    | refl => exact rfl
    | tail _ hstep ih => exact ih.step he hstep
  refine Nat.le_trans (Nat.le_add_right _ _) (?_ : c.state.sentBy i φ ≤ n)
  cases ho : c.callers i with
  | none =>
    rw [ho] at hb
    rw [show c.state.sentBy i φ = 0 from hb]
    exact Nat.zero_le _
  | some p =>
    rw [ho] at hb
    obtain ⟨m, -, hle⟩ := hb
    omega

end

/-- What only one caller sends, and at most once, is logged at most once. -/
theorem countP_le_one [DecidableEq ι] {l : List (Entry ι δ τ)} {φ ψ : τ → Bool}
    (hone : ∀ i, l.countP (fun e => e.caller = i && φ e.tx) ≤ 1) (hφ : ∀ e ∈ l, ψ e.tx = true → φ e.tx = true)
    (hsame : ∀ e ∈ l, ∀ f ∈ l, ψ e.tx = true → ψ f.tx = true → e.caller = f.caller) :
    l.countP (fun e => ψ e.tx) ≤ 1 := by
  by_cases h : ∃ f ∈ l, ψ f.tx = true
  · obtain ⟨f, hf, hψ⟩ := h
    refine Nat.le_trans (List.countP_mono_left fun e he hp => ?_) (hone f.caller)
    rw [hφ e he hp, decide_eq_true (hsame e he f hf hp hψ)]
    rfl
  · rw [List.countP_eq_zero.mpr fun e he hp => h ⟨e, he, hp⟩]
    exact Nat.zero_le _

/-! ## What every caller keeps -/

/-- An invariant of the database and the log, and what a caller may commit and note where. -/
structure Discipline (ι δ τ : Type) where
  inv : δ → List (Entry ι δ τ) → Prop
  sent : ι → τ → δ → List (Entry ι δ τ) → Prop
  noted : ι → τ → δ → List (Entry ι δ τ) → Prop

variable (Y : System δ τ) (K : Discipline ι δ τ)

/-- No transaction that may be sent and no drift takes the fact away. -/
structure Kept (R : δ → List (Entry ι δ τ) → Prop) : Prop where
  step : ∀ i tx d d' l, K.inv d l → K.sent i tx d l ∨ K.noted i tx d l → Y.run tx d = some d' → R d l →
    R d' (l ++ [⟨i, tx, d⟩])
  drift : ∀ d d' l, K.inv d l → Y.drift d d' → R d l → R d' l

/-- The invariant is kept, and what may be sent may still be applied later. -/
structure Keeps : Prop where
  inv : Kept Y K K.inv
  sent : ∀ i tx, Kept Y K (K.sent i tx)

/-- What a step of caller `i` does. -/
def Moves (i : ι) (s s' : Shared ι δ τ) : Prop :=
  (s'.db = s.db ∧ s'.log = s.log ∧ ∀ f ∈ s'.flight, f ∈ s.flight ∨ f.1 = i) ∨
    ∃ tx, (K.sent i tx s.db s.log ∨ K.noted i tx s.db s.log) ∧ ∃ d, Y.run tx s.db = some d ∧ s' = s.apply i tx d

/-- Every caller keeps the discipline; nothing it sends is on its way before it starts, and nothing of it is logged. -/
def contract : Contract ι (Shared ι δ τ) where
  inv s := K.inv s.db s.log ∧ ∀ f ∈ s.flight, K.sent f.1 f.2 s.db s.log
  guar := Moves Y K
  fresh i s := (∀ e ∈ s.log, e.caller ≠ i) ∧ ∀ f ∈ s.flight, f.1 ≠ i

variable {Y K}

theorem Kept.const (c : Prop) : Kept Y K fun _ _ => c := ⟨fun _ _ _ _ _ _ _ _ h => h, fun _ _ _ _ _ h => h⟩

theorem Kept.and {R R' : δ → List (Entry ι δ τ) → Prop} (h : Kept Y K R) (h' : Kept Y K R') :
    Kept Y K fun d l => R d l ∧ R' d l :=
  ⟨fun i tx d d' l hi hs hr hp => ⟨h.step i tx d d' l hi hs hr hp.1, h'.step i tx d d' l hi hs hr hp.2⟩,
    fun d d' l hi hd hp => ⟨h.drift d d' l hi hd hp.1, h'.drift d d' l hi hd hp.2⟩⟩

theorem Kept.all {α : Type} {R : α → δ → List (Entry ι δ τ) → Prop} (h : ∀ a, Kept Y K (R a)) :
    Kept Y K fun d l => ∀ a, R a d l :=
  ⟨fun i tx d d' l hi hs hr hp a => (h a).step i tx d d' l hi hs hr (hp a),
    fun d d' l hi hd hp a => (h a).drift d d' l hi hd (hp a)⟩

theorem Kept.imp {c : Prop} {R : δ → List (Entry ι δ τ) → Prop} (h : c → Kept Y K R) : Kept Y K fun d l => c → R d l :=
  ⟨fun i tx d d' l hi hs hr hp hc => (h hc).step i tx d d' l hi hs hr (hp hc),
    fun d d' l hi hd hp hc => (h hc).drift d d' l hi hd (hp hc)⟩

/-- The log only grows. -/
theorem Kept.logged (e : Entry ι δ τ) : Kept Y K fun _ l => e ∈ l :=
  ⟨fun _ _ _ _ _ _ _ _ h => List.mem_append_left _ h, fun _ _ _ _ _ h => h⟩

/-- Some entry of the caller with this transaction. -/
def Applied (i : ι) (tx : τ) (l : List (Entry ι δ τ)) : Prop := ∃ d, ⟨i, tx, d⟩ ∈ l

theorem Kept.applied (i : ι) (tx : τ) : Kept Y K fun _ l => Applied i tx l :=
  ⟨fun _ _ _ _ _ _ _ _ ⟨d, h⟩ => ⟨d, List.mem_append_left _ h⟩, fun _ _ _ _ _ h => h⟩

theorem contract_env (h : Keeps Y K) {s s' : Shared ι δ τ} (hs : (contract Y K).inv s) (he : Env Y s s') :
    (contract Y K).inv s' := by
  obtain ⟨hi, hf⟩ := hs
  cases he with
  | @late i tx before after d hfl hr =>
    have hsent := hf (i, tx) (by rw [hfl]; simp)
    refine ⟨h.inv.step i tx _ _ _ hi (.inl hsent) hr hi, fun f hm => ?_⟩
    refine (h.sent f.1 f.2).step i tx _ _ _ hi (.inl hsent) hr (hf f ?_)
    rw [hfl]
    rcases List.mem_append.mp hm with hm | hm
    · exact List.mem_append_left _ hm
    · exact List.mem_append_right _ (List.mem_cons_of_mem _ hm)
  | @givenUp i tx before after hfl =>
    refine ⟨hi, fun f hm => hf f ?_⟩
    rw [hfl]
    rcases List.mem_append.mp hm with hm | hm
    · exact List.mem_append_left _ hm
    · exact List.mem_append_right _ (List.mem_cons_of_mem _ hm)
  | drift hd => exact ⟨h.inv.drift _ _ _ hi hd hi, fun f hm => (h.sent f.1 f.2).drift _ _ _ hi hd (hf f hm)⟩

theorem contract_apply (h : Keeps Y K) {s : Shared ι δ τ} (hs : (contract Y K).inv s) {i : ι} {tx : τ} {d : δ}
    (ht : K.sent i tx s.db s.log ∨ K.noted i tx s.db s.log) (hr : Y.run tx s.db = some d) :
    (contract Y K).inv (s.apply i tx d) :=
  ⟨h.inv.step i tx _ _ _ hs.1 ht hr hs.1, fun f hm => (h.sent f.1 f.2).step i tx _ _ _ hs.1 ht hr (hs.2 f hm)⟩

/-- A kept fact is one that no step takes away. -/
theorem Kept.lasting {R : δ → List (Entry ι δ τ) → Prop} (h : Kept Y K R) :
    Lasting (world (ε := ε) Y) (contract Y K) fun s => R s.db s.log := by
  rintro s s' hs - (he | ⟨j, hj⟩) hR
  · cases he with
    | @late i tx before after d hfl hr =>
      exact h.step i tx _ _ _ hs.1 (.inl (hs.2 (i, tx) (by rw [hfl]; simp))) hr hR
    | givenUp hfl => exact hR
    | drift hd => exact h.drift _ _ _ hs.1 hd hR
  · obtain ⟨hd, hl, -⟩ | ⟨tx, ht, d, hr, rfl⟩ := hj
    · rw [hd, hl]
      exact hR
    · exact h.step j tx _ _ _ hs.1 ht hr hR

theorem fresh_stable (i : ι) : Stable (world (ε := ε) Y) (contract Y K) i ((contract Y K).fresh i) := by
  rintro s s' - - ⟨hl, hf⟩ (he | ⟨j, hj, hm⟩)
  · cases he with
    | @late k tx before after d hfl hr =>
      refine ⟨fun e he => ?_, fun f hm => hf f ?_⟩
      · rcases List.mem_append.mp he with he | he
        · exact hl e he
        · rw [List.mem_singleton.mp he]
          exact hf (k, tx) (by rw [hfl]; simp)
      · rw [hfl]
        rcases List.mem_append.mp hm with hm | hm
        · exact List.mem_append_left _ hm
        · exact List.mem_append_right _ (List.mem_cons_of_mem _ hm)
    | givenUp hfl =>
      refine ⟨hl, fun f hm => hf f ?_⟩
      rw [hfl]
      rcases List.mem_append.mp hm with hm | hm
      · exact List.mem_append_left _ hm
      · exact List.mem_append_right _ (List.mem_cons_of_mem _ hm)
    | drift hd => exact ⟨hl, hf⟩
  · obtain ⟨-, hlog, hfl⟩ | ⟨tx, -, d, -, rfl⟩ := hm
    · refine ⟨hlog ▸ hl, fun f hm => ?_⟩
      rcases hfl f hm with hm | rfl
      · exact hf f hm
      · exact hj
    · refine ⟨fun e he => ?_, hf⟩
      rcases List.mem_append.mp he with he | he
      · exact hl e he
      · rw [List.mem_singleton.mp he]
        exact hj

/-! ## The rule for each request -/

section
variable {i : ι} {s s' : Shared ι δ τ}

theorem exec_read {x : Except ε δ} (hs : (contract Y K).inv s) (hx : Exec (ε := ε) Y i s .read x s') :
    (contract Y K).inv s' ∧ (contract Y K).guar i s s' ∧ s' = s ∧ ∀ d, x = .ok d → d = s.db := by
  cases hx with
  | read =>
    refine ⟨hs, .inl ⟨rfl, rfl, fun f hf => .inl hf⟩, rfl, fun d hd => ?_⟩
    cases hd
    rfl
  | readFails e => exact ⟨hs, .inl ⟨rfl, rfl, fun f hf => .inl hf⟩, rfl, fun d hd => by cases hd⟩

/-- A commit that is acknowledged was applied to the database it shows. -/
theorem exec_commit (hK : Keeps Y K) {tx : τ} {x : Except ε δ} (hs : (contract Y K).inv s) (hsent : K.sent i tx s.db s.log)
    (hx : Exec (ε := ε) Y i s (.commit tx) x s') :
    (contract Y K).inv s' ∧ (contract Y K).guar i s s' ∧ ∀ d, x = .ok d → ⟨i, tx, d⟩ ∈ s'.log := by
  cases hx with
  | commit hr =>
    refine ⟨contract_apply hK hs (.inl hsent) hr, .inr ⟨tx, .inl hsent, _, hr, rfl⟩, fun d hd => ?_⟩
    cases hd
    exact List.mem_append_right _ (List.mem_singleton_self _)
  | commitLost e hr =>
    exact ⟨contract_apply hK hs (.inl hsent) hr, .inr ⟨tx, .inl hsent, _, hr, rfl⟩, fun d hd => by cases hd⟩
  | commitFails e => exact ⟨hs, .inl ⟨rfl, rfl, fun f hf => .inl hf⟩, fun d hd => by cases hd⟩
  | commitFlies e =>
    refine ⟨⟨hs.1, fun f hm => ?_⟩, .inl ⟨rfl, rfl, fun f hm => ?_⟩, fun d hd => by cases hd⟩
    · rcases List.mem_cons.mp hm with rfl | hm
      · exact hsent
      · exact hs.2 f hm
    · rcases List.mem_cons.mp hm with rfl | hm
      · exact .inr rfl
      · exact .inl hm

theorem exec_note (hK : Keeps Y K) {tx : τ} {x : Unit} (hs : (contract Y K).inv s) (hn : K.noted i tx s.db s.log)
    (hx : Exec (ε := ε) Y i s (.note tx) x s') :
    (contract Y K).inv s' ∧ (contract Y K).guar i s s' ∧ Applied i tx s'.log := by
  cases hx with
  | note hr =>
    refine ⟨contract_apply hK hs (.inr hn) hr, .inr ⟨tx, .inr hn, _, hr, rfl⟩, s.db, ?_⟩
    exact List.mem_append_right _ (List.mem_singleton_self _)

end

variable {i : ι} {F : Shared ι δ τ → Prop}

theorem spec_read (hF : Stable (world (ε := ε) Y) (contract Y K) i F) {R : δ → δ → List (Entry ι δ τ) → Prop}
    (hR : ∀ d, Kept Y K (R d)) (h : ∀ d l, K.inv d l → R d d l) :
    Ensures (world Y) (contract Y K) i F (read : Calls ε δ τ δ) fun d s => F s ∧ R d s.db s.log := by
  refine Ensures.query (fun d => hF.and ((hR d).lasting.stable i)) fun s x s' hs hf hx => ?_
  obtain ⟨hs', hg, rfl, hd⟩ := exec_read hs hx
  refine ⟨hs', hg, fun d hx => ⟨hf, ?_⟩⟩
  rw [hd d hx]
  exact h _ _ hs.1

/-- A reading of which nothing is kept. -/
theorem spec_any : Ensures (world Y) (contract Y K) i (fun _ => True) (read : Calls ε δ τ δ) fun _ _ => True :=
  (spec_read (.const True) (R := fun _ _ _ => True) (fun _ => .const True) fun _ _ _ => trivial).post fun _ _ _ _ => trivial

/-- A program that only reads keeps what is stable. -/
theorem reading_valid {α : Type} {P : Shared ι δ τ → Prop} {Q : α → Shared ι δ τ → Prop}
    {p : Prog (Request ε δ τ) Request.Reply α} (h : Valid (world Y) (contract Y K) i Q P p) (hp : Prog.Only (· = .read) p)
    (hF : Stable (world (ε := ε) Y) (contract Y K) i F) :
    Valid (world Y) (contract Y K) i (fun a s => Q a s ∧ F s) (fun s => P s ∧ F s) p := by
  induction h with
  | ret h => exact .ret fun s hs hP => ⟨h s hs hP.1, hP.2⟩
  | call M stable post _ ih =>
    cases hp with
    | call hr hk =>
      subst hr
      refine .call (fun x s => M x s ∧ F s) (fun x => (stable x).and hF) (fun s x s' hs hP hx => ?_) fun x => ih x (hk x)
      obtain ⟨hs', hg, hm⟩ := post s x s' hs hP.1 hx
      obtain ⟨-, -, rfl, -⟩ := exec_read hs hx
      exact ⟨hs', hg, hm, hP.2⟩

theorem reading {α : Type} {P : Shared ι δ τ → Prop} {Q : α → Shared ι δ τ → Prop} {x : Calls ε δ τ α}
    (h : Ensures (world Y) (contract Y K) i P x Q) (hx : Prog.Only (· = .read) x.run)
    (hF : Stable (world (ε := ε) Y) (contract Y K) i F) :
    Ensures (world Y) (contract Y K) i (fun s => P s ∧ F s) x fun a s => Q a s ∧ F s :=
  Valid.post (reading_valid h hx hF) fun _ _ _ hq a ha => ⟨hq.1 a ha, hq.2⟩

theorem only_read {α : Type} {f : δ → Calls ε δ τ α} (hf : ∀ d, Prog.Only (· = .read) (f d).run) :
    Prog.Only (· = .read) (read >>= f : Calls ε δ τ α).run :=
  Prog.Only.andThen (.call rfl fun _ => .ret _) hf

theorem spec_perform (hK : Keeps Y K) {tx : τ} (hs : ∀ s, (contract Y K).inv s → F s → K.sent i tx s.db s.log) :
    Ensures (world Y) (contract Y K) i F (perform tx : Calls ε δ τ δ) fun d s => ⟨i, tx, d⟩ ∈ s.log :=
  Ensures.query (fun d => (Kept.logged ⟨i, tx, d⟩).lasting.stable i) fun s _ _ hinv hF hx =>
    exec_commit hK hinv (hs s hinv hF) hx

theorem spec_commit (hK : Keeps Y K) {tx : τ} (hs : ∀ s, (contract Y K).inv s → F s → K.sent i tx s.db s.log) :
    Ensures (world Y) (contract Y K) i F (commit tx : Calls ε δ τ Unit) fun _ s => Applied i tx s.log := by
  refine Ensures.query (fun _ => (Kept.applied i tx).lasting.stable i) fun s x s' hinv hF hx => ?_
  obtain ⟨hinv', hg, hlog⟩ := exec_commit hK hinv (hs s hinv hF) hx
  refine ⟨hinv', hg, fun _ hu => ?_⟩
  cases x with
  | error e => cases hu
  | ok d => exact ⟨d, hlog d rfl⟩

theorem spec_note (hK : Keeps Y K) {tx : τ} (hs : ∀ s, (contract Y K).inv s → F s → K.noted i tx s.db s.log) :
    Ensures (world Y) (contract Y K) i F (note tx : Calls ε δ τ Unit) fun _ s => Applied i tx s.log := by
  refine Ensures.query (fun _ => (Kept.applied i tx).lasting.stable i) fun s x s' hinv hF hx => ?_
  obtain ⟨hinv', hg, hlog⟩ := exec_note hK hinv (hs s hinv hF) hx
  exact ⟨hinv', hg, fun _ _ => hlog⟩

/-! ### Programs at once -/

section
variable {α : Type} {R : δ → List (Entry ι δ τ) → Prop}

theorem safe_read {g : δ → Calls ε δ τ α} {Q : δ → δ → List (Entry ι δ τ) → Prop} (hQ : ∀ d, Kept Y K (Q d))
    (h : ∀ d l, K.inv d l → R d l → Q d d l)
    (next : ∀ d, Safe (world Y) (contract Y K) i (fun s => Q d s.db s.log) (g d).run) :
    Safe (world Y) (contract Y K) i (fun s => R s.db s.log) (read >>= g).run := by
  refine .query (fun d => (hQ d).lasting) (fun s x s' hs hf hx => ?_) next
  obtain ⟨hs', hg, rfl, hd⟩ := exec_read hs hx
  refine ⟨hs', hg, fun d hx => ?_⟩
  rw [hd d hx]
  exact h _ _ hs.1 hf

theorem safe_note (hK : Keeps Y K) {tx : τ} {g : Unit → Calls ε δ τ α} (hR : Kept Y K R)
    (hn : ∀ d l, K.inv d l → R d l → K.noted i tx d l)
    (next : Safe (world Y) (contract Y K) i (fun s => R s.db s.log) (g ()).run) :
    Safe (world Y) (contract Y K) i (fun s => R s.db s.log) (note tx >>= g).run := by
  refine .query (fun _ => hR.lasting) (fun s x s' hs hf hx => ?_) fun _ => next
  obtain ⟨hs', hg, -⟩ := exec_note hK hs (hn _ _ hs.1 hf) hx
  exact ⟨hs', hg, fun _ _ => hR.lasting (ε := ε) s s' hs hs' (.inr ⟨i, hg⟩) hf⟩

theorem safe_commit (hK : Keeps Y K) {tx : τ} {g : Unit → Calls ε δ τ α} (hR : Kept Y K R)
    (hsent : ∀ d l, K.inv d l → R d l → K.sent i tx d l)
    (next : Safe (world Y) (contract Y K) i (fun s => R s.db s.log) (g ()).run) :
    Safe (world Y) (contract Y K) i (fun s => R s.db s.log) (commit tx >>= g).run := by
  refine .query (fun _ => hR.lasting) (fun s x s' hs hf hx => ?_) fun _ => next
  obtain ⟨hs', hg, -⟩ := exec_commit hK hs (hsent _ _ hs.1 hf) hx
  exact ⟨hs', hg, fun _ _ => hR.lasting (ε := ε) s s' hs hs' (.inr ⟨i, hg⟩) hf⟩

end

/-! ## Every run -/

section
variable {α : Type}

/-- The runs of any number of callers over the database. -/
abbrev Runs [DecidableEq ι] (Y : System δ τ) (entry : ι → Prog (Request ε δ τ) Request.Reply α → Prop) (d : δ)
    (c : Config ι (Shared ι δ τ) (Request ε δ τ) Request.Reply α) : Prop :=
  Steps (world Y) entry (.initial (.initial d)) c

variable {entry : ι → Prog (Request ε δ τ) Request.Reply α → Prop} {Q : ι → α → Shared ι δ τ → Prop}

/-- A caller that has not started may run its program by itself. -/
theorem Runs.alone [DecidableEq ι] (e : ε) {d : δ} {c : Config ι (Shared ι δ τ) (Request ε δ τ) Request.Reply α}
    (hc : Runs Y entry d c) {i : ι} (hi : c.callers i = none) {p : Prog (Request ε δ τ) Request.Reply α} (hp : entry i p)
    (h : Prog.Only (∀ tx, · ≠ .note tx) p) :
    ∃ c', Runs Y entry d c' ∧ c'.state.db = (Transactions.alone Y e p c.state.db).2 ∧
      c'.callers = Function.update c.callers i (some (.ret (Transactions.alone Y e p c.state.db).1)) := by
  obtain ⟨c', hs, hdb, hcal⟩ := steps_alone (Y := Y) (e := e) h
    (c := { c with callers := Function.update c.callers i (some p) }) (Function.update_self i _ _)
  refine ⟨c', (hc.tail (.start hi hp)).trans hs, hdb, ?_⟩
  rw [hcal, Function.update_idem]

/-- What its transactions keep holds behind a program that runs by itself. -/
theorem Runs.alone_kept [DecidableEq ι] (e : ε) {i : ι} {φ : τ → Prop} {R : δ → List (Entry ι δ τ) → Prop}
    (hR : ∀ tx d d' l, φ tx → R d l → Y.run tx d = some d' → R d' (l ++ [⟨i, tx, d⟩])) {d : δ}
    {c : Config ι (Shared ι δ τ) (Request ε δ τ) Request.Reply α} (hc : Runs Y entry d c) (hi : c.callers i = none)
    {p : Prog (Request ε δ τ) Request.Reply α} (hp : entry i p) (h : Prog.Only (Request.commits φ) p) (hd : R c.state.db c.state.log) :
    ∃ c', Steps (world Y) entry c c' ∧ Runs Y entry d c' ∧ c'.state.db = (Transactions.alone Y e p c.state.db).2 ∧
      c'.callers = Function.update c.callers i (some (.ret (Transactions.alone Y e p c.state.db).1)) ∧ R c'.state.db c'.state.log := by
  obtain ⟨c', hs, hdb, hcal, hkept⟩ := steps_alone_kept (Y := Y) (e := e) hR h
    (c := { c with callers := Function.update c.callers i (some p) }) (Function.update_self i _ _) hd
  have hsteps : Steps (world Y) entry c c' := .head (.start hi hp) hs
  refine ⟨c', hsteps, Relation.ReflTransGen.trans hc hsteps, hdb, ?_, hkept⟩
  rw [hcal, Function.update_idem]

theorem sound (hK : Keeps Y K) (he : ∀ i p, entry i p → Valid (world Y) (contract Y K) i (Q i) ((contract Y K).fresh i) p) :
    Concurrent.Sound (world Y) (contract Y K) entry Q :=
  ⟨fun _ _ hs h => contract_env hK hs h, fun i => fresh_stable i, he⟩

theorem Runs.good [DecidableEq ι] (hK : Keeps Y K)
    (he : ∀ i p, entry i p → Valid (world Y) (contract Y K) i (Q i) ((contract Y K).fresh i) p) {d : δ}
    (hd : K.inv d []) {c : Config ι (Shared ι δ τ) (Request ε δ τ) Request.Reply α} (hc : Runs Y entry d c) :
    Good (world Y) (contract Y K) Q c := by
  have hinv : (contract Y K).inv (.initial d) := ⟨hd, fun _ hf => absurd hf List.not_mem_nil⟩
  have hfresh : ∀ i, (contract Y K).fresh i (.initial d) :=
    fun _ => ⟨fun _ h => absurd h List.not_mem_nil, fun _ h => absurd h List.not_mem_nil⟩
  exact Good.steps (sound hK he) (Good.initial hinv hfresh) hc

/-- One step leaves the database, applies one logged transaction to it, or lets it drift. -/
theorem step_db [DecidableEq ι] {c c' : Config ι (Shared ι δ τ) (Request ε δ τ) Request.Reply α}
    (h : Step (world Y) entry c c') :
    (c'.state.db = c.state.db ∧ c'.state.log = c.state.log) ∨
    (∃ e, c'.state.log = c.state.log ++ [e] ∧ e.before = c.state.db ∧ Y.run e.tx c.state.db = some c'.state.db) ∨
    (Y.drift c.state.db c'.state.db ∧ c'.state.log = c.state.log) := by
  cases h with
  | start => exact .inl ⟨rfl, rfl⟩
  | call hi hx =>
    cases hx with
    | read | readFails | commitFails | commitFlies => exact .inl ⟨rfl, rfl⟩
    | commit h | commitLost _ h | note h => exact .inr (.inl ⟨_, rfl, rfl, h⟩)
  | env he =>
    cases he with
    | late hf h => exact .inr (.inl ⟨_, rfl, rfl, h⟩)
    | givenUp hf => exact .inl ⟨rfl, rfl⟩
    | drift h => exact .inr (.inr ⟨h, rfl⟩)

/-- The log only grows. -/
theorem steps_log [DecidableEq ι] {c c' : Config ι (Shared ι δ τ) (Request ε δ τ) Request.Reply α}
    (h : Steps (world Y) entry c c') : ∃ l, c'.state.log = c.state.log ++ l := by
  induction h with
  | refl => exact ⟨[], (List.append_nil _).symm⟩
  | tail _ hstep ih =>
    obtain ⟨l, hl⟩ := ih
    rcases step_db hstep with ⟨-, hlog⟩ | ⟨e, hlog, -⟩ | ⟨-, hlog⟩
    · exact ⟨l, hlog.trans hl⟩
    · exact ⟨l ++ [e], by rw [hlog, hl, List.append_assoc]⟩
    · exact ⟨l, hlog.trans hl⟩

/-! ## What a caller that starts later finds -/

/-- The same discipline, behind a log. -/
def Discipline.behind (K : Discipline ι δ τ) (l₀ : List (Entry ι δ τ)) : Discipline ι δ τ :=
  { K with inv := fun d l => K.inv d l ∧ l₀ <+: l }

theorem Kept.behind {R : δ → List (Entry ι δ τ) → Prop} (h : Kept Y K R) (l₀ : List (Entry ι δ τ)) : Kept Y (K.behind l₀) R :=
  ⟨fun i tx d d' l hi => h.step i tx d d' l hi.1, fun d d' l hi => h.drift d d' l hi.1⟩

theorem Keeps.behind (h : Keeps Y K) (l₀ : List (Entry ι δ τ)) : Keeps Y (K.behind l₀) :=
  ⟨(h.inv.behind l₀).and ⟨fun _ _ _ _ _ _ _ _ hp => hp.trans (List.prefix_append _ _), fun _ _ _ _ _ hp => hp⟩,
    fun i tx => (h.sent i tx).behind l₀⟩

theorem valid_behind {i : ι} {Q : α → Shared ι δ τ → Prop} {P : Shared ι δ τ → Prop} {p : Prog (Request ε δ τ) Request.Reply α}
    (h : Valid (world Y) (contract Y K) i Q P p) (l₀ : List (Entry ι δ τ)) : Valid (world Y) (contract Y (K.behind l₀)) i Q P p := by
  refine h.strengthen rfl (fun s hs => ⟨hs.1.1, hs.2⟩) fun s s' hs hs' hg => ⟨⟨hs'.1, ?_⟩, hs'.2⟩
  rcases hg with ⟨-, hlog, -⟩ | ⟨tx, -, d, -, rfl⟩
  · exact hlog ▸ hs.1.2
  · exact hs.1.2.trans (List.prefix_append _ _)

/-- A caller that has not started yet finds what is logged by now. -/
theorem Runs.started [DecidableEq ι] (hK : Keeps Y K)
    (he : ∀ j p, entry j p → Valid (world Y) (contract Y K) j (Q j) ((contract Y K).fresh j) p) {d : δ} (hd : K.inv d [])
    {c c' : Config ι (Shared ι δ τ) (Request ε δ τ) Request.Reply α} (hc : Runs Y entry d c) {i : ι} (hi : c.callers i = none)
    {R : α → Shared ι δ τ → Prop}
    (hR : ∀ p, entry i p →
      Valid (world Y) (contract Y (K.behind c.state.log)) i R ((contract Y (K.behind c.state.log)).fresh i) p)
    (hc' : Steps (world Y) entry c c') {a : α} (ha : c'.callers i = some (.ret a)) : R a c'.state := by
  have hgood := Runs.good hK he hd hc
  have hstart : Good (world Y) (contract Y (K.behind c.state.log)) (Function.update Q i R) c := by
    refine ⟨⟨⟨hgood.1.1, List.prefix_rfl⟩, hgood.1.2⟩, fun j => ?_⟩
    have hj := hgood.2 j
    by_cases hji : j = i
    · subst hji
      rw [hi] at hj ⊢
      exact hj
    · cases hp : c.callers j with
      | none =>
        rw [hp] at hj
        exact hj
      | some p =>
        rw [hp] at hj
        obtain ⟨P, hP, hst, hv⟩ := hj
        refine ⟨P, hP, hst.strengthen rfl fun s hs => ⟨hs.1.1, hs.2⟩, ?_⟩
        rw [Function.update_of_ne hji]
        exact valid_behind hv _
  have hsound : Concurrent.Sound (world Y) (contract Y (K.behind c.state.log)) entry (Function.update Q i R) := by
    refine sound (hK.behind _) fun j p hp => ?_
    by_cases hji : j = i
    · subst hji
      rw [Function.update_self]
      exact hR p hp
    · rw [Function.update_of_ne hji]
      exact valid_behind (he j p hp) _
  have := (hstart.steps hsound hc').returned ha
  rwa [Function.update_self] at this

/-! ## Callers that may send anything -/

/-- The invariant is kept by every transaction, whoever sends it. -/
def Unconditional (R : δ → List (Entry ι δ τ) → Prop) : Discipline ι δ τ := ⟨R, fun _ _ _ _ => True, fun _ _ _ _ => True⟩

variable {R : δ → List (Entry ι δ τ) → Prop}

theorem Unconditional.keeps (step : ∀ i tx d d' l, R d l → Y.run tx d = some d' → R d' (l ++ [⟨i, tx, d⟩]))
    (drift : ∀ d d' l, R d l → Y.drift d d' → R d' l) : Keeps Y (Unconditional R) :=
  ⟨⟨fun i tx d d' l h _ hr _ => step i tx d d' l h hr, fun d d' l h hd _ => drift d d' l h hd⟩, fun _ _ => .const True⟩

theorem Unconditional.valid (hK : Keeps Y (Unconditional R)) (p : Prog (Request ε δ τ) Request.Reply α) :
    Valid (world Y) (contract Y (Unconditional R)) i (fun _ _ => True) (fun _ => True) p := by
  induction p with
  | ret a => exact .ret fun _ _ _ => trivial
  | call r k ih =>
    refine .call (fun _ _ => True) (fun _ => .const True) (fun s x s' hs _ hx => ?_) ih
    cases hx with
    | read => exact ⟨hs, .inl ⟨rfl, rfl, fun f hf => .inl hf⟩, trivial⟩
    | readFails e => exact ⟨hs, .inl ⟨rfl, rfl, fun f hf => .inl hf⟩, trivial⟩
    | commit hr => exact ⟨contract_apply hK hs (.inl trivial) hr, .inr ⟨_, .inl trivial, _, hr, rfl⟩, trivial⟩
    | commitLost e hr => exact ⟨contract_apply hK hs (.inl trivial) hr, .inr ⟨_, .inl trivial, _, hr, rfl⟩, trivial⟩
    | commitFails e => exact ⟨hs, .inl ⟨rfl, rfl, fun f hf => .inl hf⟩, trivial⟩
    | commitFlies e =>
      refine ⟨⟨hs.1, fun _ _ => trivial⟩, .inl ⟨rfl, rfl, fun f hm => ?_⟩, trivial⟩
      rcases List.mem_cons.mp hm with rfl | hm
      · exact .inr rfl
      · exact .inl hm
    | note hr => exact ⟨contract_apply hK hs (.inr trivial) hr, .inr ⟨_, .inr trivial, _, hr, rfl⟩, trivial⟩

variable [DecidableEq ι] {d : δ} {c c' : Config ι (Shared ι δ τ) (Request ε δ τ) Request.Reply α}

/-- What every transaction and every drift keeps holds in every run of any programs. -/
theorem Runs.invariant (step : ∀ i tx d d' l, R d l → Y.run tx d = some d' → R d' (l ++ [⟨i, tx, d⟩]))
    (drift : ∀ d d' l, R d l → Y.drift d d' → R d' l) (hd : R d []) (hc : Runs Y entry d c) : R c.state.db c.state.log :=
  have hK := Unconditional.keeps step drift
  (Runs.good hK (fun _ p _ => (Unconditional.valid hK p).weaken fun _ _ _ => trivial) hd hc).1.1

/-- What every transaction and every drift moves forward only, every run moves forward only. -/
theorem Runs.later (step : ∀ i tx d d' l, R d l → Y.run tx d = some d' → R d' (l ++ [⟨i, tx, d⟩]))
    (drift : ∀ d d' l, R d l → Y.drift d d' → R d' l) (hd : R d []) (hc : Runs Y entry d c)
    {T : δ → δ → Prop} (refl : ∀ d, T d d) (trans : ∀ {d e f}, T d e → T e f → T d f)
    (hstep : ∀ tx d d' l, R d l → Y.run tx d = some d' → T d d') (hdrift : ∀ d d', Y.drift d d' → T d d')
    (hc' : Steps (world Y) entry c c') : T c.state.db c'.state.db := by
  have hK := Unconditional.keeps step drift
  have hsound : Concurrent.Sound (world Y) (contract Y (Unconditional R)) entry fun _ _ _ => True :=
    sound hK fun i p _ => (Unconditional.valid hK p).weaken fun _ _ _ => trivial
  have hgood := Runs.good hK (fun _ p _ => (Unconditional.valid hK p).weaken fun _ _ _ => trivial) hd hc
  refine Good.steps_invariant hsound hgood hc' (J := fun s => T c.state.db s.db) ?_ ?_ (refl _)
  · intro i s s' hs hT hg
    obtain ⟨he, -⟩ | ⟨tx, -, e, hr, rfl⟩ := hg
    · rw [he]
      exact hT
    · exact trans hT (hstep tx _ _ _ hs.1 hr)
  · intro s s' hs hT he
    cases he with
    | late _ hr => exact trans hT (hstep _ _ _ _ hs.1 hr)
    | givenUp _ => exact hT
    | drift h => exact trans hT (hdrift _ _ h)

end

end

end Transactions
