import Mikaki.Lib.Calls
import Mikaki.Work.AdoptionRecordsSound

/-!
# The life of an external operation

One approval and the operations prepared under it, through any sequence of
calls. `Advance` is the abstract life: a step of one operation. Every call
takes an operation one such step or leaves it as it was; the rest follows
from what the steps allow.
-/

namespace Mikaki

open Checks

/-! ## The abstract life -/

/-- One step of an operation. -/
inductive Advance : ExternalOperation → ExternalOperation → Prop
  | dispatch {o : ExternalOperation} (h : o.state = .prepared) : Advance o { o with state := .dispatched }
  | cancel {o : ExternalOperation} (h : o.state = .prepared) : Advance o { o with state := .cancelled }
  | unknown {o : ExternalOperation} (h : o.state = .dispatched) : Advance o { o with state := .outcomeUnknown }
  | settle {o : ExternalOperation} {outcome : OperationState} (receipt : Id)
      (h : o.state = .dispatched ∨ o.state = .outcomeUnknown) (ho : outcome.terminal = true) :
      Advance o { o with state := outcome, receipt := some receipt }

/-- Any number of steps. -/
def Advances : ExternalOperation → ExternalOperation → Prop := Relation.ReflTransGen Advance

/-- The states no call leaves. -/
def OperationState.final : OperationState → Bool
  | .applied | .rejected | .cancelled => true
  | _ => false

/-- A receipt is present exactly in the settled states. -/
def ExternalOperation.Settled (o : ExternalOperation) : Prop := o.state.terminal = o.receipt.isSome

section
variable {o o' : ExternalOperation}

theorem Advance.same (h : Advance o o') : o'.id = o.id ∧ o'.effect = o.effect := by cases h <;> exact ⟨rfl, rfl⟩

theorem Advance.not_final (h : Advance o o') : o.state.final = false := by
  cases h with
  | dispatch h => rw [h]; rfl
  | cancel h => rw [h]; rfl
  | unknown h => rw [h]; rfl
  | settle _ h _ => rcases h with h | h <;> (rw [h]; rfl)

theorem Advance.settled (h : Advance o o') (hs : o.Settled) : o'.Settled := by
  unfold ExternalOperation.Settled at *
  cases h with
  | dispatch h => rw [← hs, h]; rfl
  | cancel h => rw [← hs, h]; rfl
  | unknown h => rw [← hs, h]; rfl
  | settle _ _ ho => exact ho

/-- Nothing goes back to `prepared`, and what left it other than by cancelling is never cancelled. -/
theorem Advance.forward (h : Advance o o') :
    o'.state ≠ .prepared ∧ (o.state ≠ .prepared → o.state ≠ .cancelled → o'.state ≠ .cancelled) := by
  cases h with
  | dispatch h => exact ⟨by simp, fun hp => absurd h hp⟩
  | cancel h => exact ⟨by simp, fun hp => absurd h hp⟩
  | unknown h => exact ⟨by simp, fun _ _ => by simp⟩
  | settle _ _ ho =>
    constructor
    · rintro rfl; cases ho
    · rintro - - rfl; cases ho

theorem Advances.same (h : Advances o o') : o'.id = o.id ∧ o'.effect = o.effect := by
  induction h with
  | refl => exact ⟨rfl, rfl⟩
  | tail _ h ih => exact ⟨h.same.1.trans ih.1, h.same.2.trans ih.2⟩

theorem Advances.of_final (h : Advances o o') (hf : o.state.final = true) : o' = o := by
  induction h with
  | refl => rfl
  | tail _ h ih =>
    subst ih
    rw [h.not_final] at hf; cases hf

theorem Advances.never_cancelled (h : Advances o o') (hp : o.state ≠ .prepared) (hc : o.state ≠ .cancelled) :
    o'.state ≠ .prepared ∧ o'.state ≠ .cancelled := by
  induction h with
  | refl => exact ⟨hp, hc⟩
  | tail _ h ih => exact ⟨h.forward.1, h.forward.2 ih.1 ih.2⟩

end

/-! ## Storing a value and reading it back between two calls -/

namespace ExternalOperation

/-- A record is written and restored with the operation's current state. -/
def persist (self : ExternalOperation) : Except Denied Unit × ExternalOperation :=
  match self.authorityRecord >>= fun text => restoreAuthorityRecord text self.state (self.receipt.map (·.text)) with
  | .error e => (.error e, self)
  | .ok restored => (.ok (), restored)

end ExternalOperation

namespace CodeApproval

def persist (self : CodeApproval) : Except Denied Unit × CodeApproval :=
  match self.authorityRecord >>= fun text => restoreAuthorityRecord text self.revision self.revoked with
  | .error e => (.error e, self)
  | .ok restored => (.ok (), restored)

end CodeApproval

/-! Reading a stored number back fails where the number is too large and is exact otherwise. -/

theorem ProducerRevision.read_inv {p q : ProducerRevision} (h : read p.toJson = some q) : q = p := by
  obtain ⟨f, hm, h⟩ := Records.fields_inv h rfl rfl (by decide)
  simp only [Records.FieldsOf, List.forall_mem_cons] at hm
  simp only [hm, Records.some_bind, Records.bind_eq_some, Option.pure_def, Option.some.injEq, Records.id_text] at h
  obtain ⟨a, ha, b, hb, rfl⟩ := h
  rw [Records.u64_inv ha, Records.u64_inv hb]

theorem Effect.read_inv {e f : Effect} (h : read e.toJson = some f) : f = e := by
  obtain ⟨f, hm, h⟩ := Records.fields_inv h rfl rfl (by decide)
  simp only [Records.FieldsOf, List.forall_mem_cons] at hm
  simp only [hm, Records.some_bind, Records.bind_eq_some, Option.pure_def, Option.some.injEq, Records.id_text,
    Records.digest_toHex, Records.string_str] at h
  obtain ⟨a, ha, b, hb, c, hc, p, hp, d, hd, rfl⟩ := h
  rw [Records.u64_inv ha, Records.u64_inv hb, Records.u64_inv hc, Records.u64_inv hd, ProducerRevision.read_inv hp]

theorem CodeApproval.read_inv {a b : CodeApproval} (h : read a.revision a.revoked a.toJson = some b) : b = a := by
  obtain ⟨f, hm, h⟩ := Records.fields_inv h rfl rfl (by decide)
  simp only [Records.FieldsOf, List.forall_mem_cons] at hm
  simp only [hm, Records.some_bind, Records.bind_eq_some, Option.pure_def, Option.some.injEq, Records.id_text,
    Records.digest_toHex] at h
  obtain ⟨m, hm, n, hn, p, hp, k, hk, x, hx, rfl⟩ := h
  rw [Records.u64_inv hm, Records.u64_inv hn, Records.u64_inv hk, Records.u64_inv hx, ProducerRevision.read_inv hp]

theorem ExternalOperation.read_inv {o : ExternalOperation} {p : Id × Effect} (h : read o.toJson = some p) :
    p = (o.id, o.effect) := by
  obtain ⟨f, hm, h⟩ := Records.fields_inv h rfl rfl (by decide)
  simp only [Records.FieldsOf, List.forall_mem_cons] at hm
  simp only [hm, Records.some_bind, Records.bind_eq_some, Option.pure_def, Option.some.injEq, Records.id_text] at h
  obtain ⟨e, he, rfl⟩ := h
  rw [Effect.read_inv he]

/-- What an operation's own record restores to, in any state. -/
theorem ExternalOperation.restore_same {o b : ExternalOperation} {text : String} {state : OperationState}
    {receipt : Option String} (he : o.authorityRecord = .ok text) (hr : restoreAuthorityRecord text state receipt = .ok b) :
    b.id = o.id ∧ b.effect = o.effect ∧ b.state = state ∧ readReceipt receipt = .ok b.receipt := by
  simp only [restoreAuthorityRecord, bind_eq_ok, pure_eq_ok] at hr
  obtain ⟨⟨i, e⟩, hd, _, -, _, -, _, -, _, -, _, -, _, -, _, -, _, -, r, hrec, rfl⟩ := hr
  cases read_inv (Records.decode_encode_inv he hd)
  exact ⟨rfl, rfl, rfl, hrec⟩

/-- Where an operation's own record is restored with its own state, it is the operation. -/
theorem ExternalOperation.restore_inv {o b : ExternalOperation} {text : String} (he : o.authorityRecord = .ok text)
    (hr : restoreAuthorityRecord text o.state (o.receipt.map (·.text)) = .ok b) : b = o := by
  obtain ⟨hi, hf, hs, hrec⟩ := restore_same he hr
  rw [readReceipt_text, Except.ok.injEq] at hrec
  cases b
  cases o
  simp_all

theorem CodeApproval.persist_cases (a : CodeApproval) : a.persist = (.ok (), a) ∨ ∃ e, a.persist = (.error e, a) := by
  unfold persist
  split
  · exact .inr ⟨_, rfl⟩
  · rename_i b h
    obtain ⟨text, he, hr⟩ := bind_eq_ok.mp h
    obtain ⟨hd, -⟩ := restore_ok hr
    rw [read_inv (Records.decode_encode_inv he hd)]
    exact .inl rfl

theorem ExternalOperation.persist_cases (o : ExternalOperation) :
    o.persist = (.ok (), o) ∨ ∃ e, o.persist = (.error e, o) := by
  unfold persist
  split
  · exact .inr ⟨_, rfl⟩
  · rename_i b h
    obtain ⟨text, he, hr⟩ := bind_eq_ok.mp h
    rw [show b = o from restore_inv he hr]
    exact .inl rfl

/-! ## The calls on one approval and its operations -/

namespace Lifecycle

structure State where
  approval : CodeApproval
  operations : List ExternalOperation

/-- An operation is named by its place in the order of preparation. -/
inductive Call where
  | prepare (action id : String) (context : AdoptionContext)
  | dispatch (index : Nat) (context : AdoptionContext)
  | cancel (index : Nat)
  | unknown (index : Nat)
  | applied (index : Nat) (receipt : String)
  | rejected (index : Nat) (receipt : String)
  | persist (index : Nat)
  | revoke
  | persistApproval

/-- Run `f` on one operation; there is no reply when there is no such operation. -/
def onOperation (index : Nat) (f : ExternalOperation → Except Denied Unit × ExternalOperation) (s : State) :
    Option (Except Denied Unit) × State :=
  match s.operations[index]? with
  | none => (none, s)
  | some o => (some (f o).1, { s with operations := s.operations.set index (f o).2 })

def onApproval (f : CodeApproval → Except Denied Unit × CodeApproval) (s : State) :
    Option (Except Denied Unit) × State :=
  (some (f s.approval).1, { s with approval := (f s.approval).2 })

def step (c : Call) (s : State) : Option (Except Denied Unit) × State :=
  match c with
  | .prepare action id context =>
    match s.approval.prepareOperation action id context with
    | .error e => (some (.error e), s)
    | .ok o => (some (.ok ()), { s with operations := s.operations ++ [o] })
  | .dispatch index context => onOperation index (s.approval.dispatch · context) s
  | .cancel index => onOperation index (·.cancelUndispatched) s
  | .unknown index => onOperation index (·.markOutcomeUnknown) s
  | .applied index receipt => onOperation index (·.confirmApplied receipt) s
  | .rejected index receipt => onOperation index (·.confirmRejected receipt) s
  | .persist index => onOperation index (·.persist) s
  | .revoke => onApproval (·.revoke) s
  | .persistApproval => onApproval (·.persist) s

abbrev run : State → List Call → State := Calls.run step

/-! ### What one call does -/

/-- A method of an operation advances it by one step, or keeps it and, when it fails, does keep it. -/
def Tame (f : ExternalOperation → Except Denied Unit × ExternalOperation) : Prop :=
  ∀ o, (Advance o (f o).2 ∧ (f o).1 = .ok ()) ∨ (f o).2 = o

theorem tame_dispatch (a : CodeApproval) (c : AdoptionContext) : Tame (a.dispatch · c) := by
  intro o
  obtain ⟨hs, -, -, h⟩ | ⟨e, h⟩ := a.dispatch_cases o c <;> simp only [h]
  · exact .inl ⟨.dispatch hs, trivial⟩
  · exact .inr trivial

theorem tame_cancel : Tame (·.cancelUndispatched) := by
  intro o
  obtain ⟨hs, h⟩ | ⟨e, h⟩ := o.cancelUndispatched_cases <;> simp only [h]
  · rcases hs with hs | hs
    · exact .inl ⟨.cancel hs, trivial⟩
    · exact .inr (by rw [← hs])
  · exact .inr trivial

theorem tame_unknown : Tame (·.markOutcomeUnknown) := by
  intro o
  obtain ⟨hs, h⟩ | ⟨e, h⟩ := o.markOutcomeUnknown_cases <;> simp only [h]
  · rcases hs with hs | hs
    · exact .inl ⟨.unknown hs, trivial⟩
    · exact .inr (by rw [← hs])
  · exact .inr trivial

theorem tame_finish {outcome : OperationState} (ho : outcome.terminal = true) (receipt : String) :
    Tame (·.finish outcome receipt) := by
  intro o
  obtain ⟨r, -, hs, h⟩ | ⟨r, -, -, -, -, h⟩ | ⟨e, h⟩ := o.finish_cases outcome receipt <;> simp only [h]
  · exact .inl ⟨.settle r hs ho, trivial⟩
  · exact .inr trivial
  · exact .inr trivial

theorem tame_persist : Tame (·.persist) := by
  intro o
  obtain h | ⟨e, h⟩ := o.persist_cases <;> simp only [h]
  · exact .inr trivial
  · exact .inr trivial

/-- What a call may do to the operations: prepare one more, or run a tame method of one. -/
theorem step_cases (c : Call) (s : State) :
    (∃ o, o.state = .prepared ∧ o.receipt = none ∧ (step c s).2 = { s with operations := s.operations ++ [o] } ∧
      (step c s).1 = some (.ok ())) ∨
    (∃ i f, Tame f ∧ step c s = onOperation i f s) ∨
    ((step c s).2.operations = s.operations ∧ (∀ e, (step c s).1 = some (.error e) → (step c s).2 = s)) := by
  cases c with
  | prepare action id context =>
    cases h : s.approval.prepareOperation action id context with
    | error e => exact .inr (.inr (by simp only [step, h]; exact ⟨trivial, fun _ _ => trivial⟩))
    | ok o =>
      obtain ⟨-, -, ho⟩ := CodeApproval.prepareOperation_ok.mp h
      exact .inl ⟨o, by rw [ho], by rw [ho], by simp only [step, h], by simp only [step, h]⟩
  | dispatch index context => exact .inr (.inl ⟨index, _, tame_dispatch _ context, rfl⟩)
  | cancel index => exact .inr (.inl ⟨index, _, tame_cancel, rfl⟩)
  | unknown index => exact .inr (.inl ⟨index, _, tame_unknown, rfl⟩)
  | applied index receipt => exact .inr (.inl ⟨index, _, tame_finish rfl receipt, rfl⟩)
  | rejected index receipt => exact .inr (.inl ⟨index, _, tame_finish rfl receipt, rfl⟩)
  | persist index => exact .inr (.inl ⟨index, _, tame_persist, rfl⟩)
  | revoke =>
    refine .inr (.inr ⟨rfl, fun e he => ?_⟩)
    simp only [step, onApproval, CodeApproval.revoke] at he ⊢
    obtain ⟨-, -, h⟩ | ⟨-, h⟩ | ⟨-, h⟩ := revokeState_cases s.approval.revision s.approval.revoked
    · rw [h] at he; cases he
    · rw [h]
    · rw [h]
  | persistApproval =>
    refine .inr (.inr ⟨by simp only [step, onApproval], fun e he => ?_⟩)
    simp only [step, onApproval] at he ⊢
    obtain h | ⟨_, h⟩ := s.approval.persist_cases
    · rw [h]
    · rw [h]

section
variable {c : Call} {s : State} {i : Nat} {o : ExternalOperation}

theorem onOperation_advance {f : ExternalOperation → Except Denied Unit × ExternalOperation} (hf : Tame f) (k : Nat)
    (h : s.operations[i]? = some o) :
    ∃ o', (onOperation k f s).2.operations[i]? = some o' ∧ (o' = o ∨ Advance o o') := by
  unfold onOperation
  split
  · exact ⟨o, h, .inl rfl⟩
  · rename_i p hp
    by_cases hk : k = i
    · subst hk
      cases hp.symm.trans h
      refine ⟨(f o).2, ?_, (hf o).symm.imp_right And.left⟩
      exact List.getElem?_set_self (List.getElem?_eq_some_iff.mp h).1
    · exact ⟨o, (List.getElem?_set_ne hk).trans h, .inl rfl⟩

/-- The operation at a place keeps it, and advances by one step at most. -/
theorem step_advance (c : Call) (h : s.operations[i]? = some o) :
    ∃ o', (step c s).2.operations[i]? = some o' ∧ (o' = o ∨ Advance o o') := by
  obtain ⟨p, -, -, hs, -⟩ | ⟨k, f, hf, hs⟩ | ⟨hs, -⟩ := step_cases c s
  · refine ⟨o, ?_, .inl rfl⟩
    rw [hs]
    exact (List.getElem?_append_left (List.getElem?_eq_some_iff.mp h).1).trans h
  · rw [hs]; exact onOperation_advance hf k h
  · exact ⟨o, by rw [hs, h], .inl rfl⟩

theorem run_advances (h : s.operations[i]? = some o) (cs : List Call) :
    ∃ o', (run s cs).operations[i]? = some o' ∧ Advances o o' := by
  induction cs generalizing s o with
  | nil => exact ⟨o, h, .refl⟩
  | cons c cs ih =>
    obtain ⟨o₁, h₁, ha⟩ := step_advance c h
    obtain ⟨o₂, h₂, hb⟩ := ih h₁
    rcases ha with rfl | ha
    · exact ⟨o₂, h₂, hb⟩
    · exact ⟨o₂, h₂, .head ha hb⟩

/-- A call that fails changes neither the approval nor an operation. -/
theorem step_error {e : Denied} (h : (step c s).1 = some (.error e)) : (step c s).2 = s := by
  obtain ⟨p, -, -, -, hr⟩ | ⟨k, f, hf, hs⟩ | ⟨-, hs⟩ := step_cases c s
  · rw [hr] at h; cases h
  · rw [hs] at h ⊢
    unfold onOperation at h ⊢
    split
    · rfl
    · rename_i p hp
      simp only [hp, Option.some.injEq] at h
      rcases hf p with ⟨-, hr⟩ | hr
      · rw [hr] at h; cases h
      · obtain ⟨hk, rfl⟩ := List.getElem?_eq_some_iff.mp hp
        rw [hr, List.set_getElem_self]
  · exact hs e h

/-- A receipt is present exactly in the settled states, whatever the calls. -/
theorem step_settled (c : Call) (h : ∀ o ∈ s.operations, o.Settled) : ∀ o ∈ (step c s).2.operations, o.Settled := by
  intro o ho
  obtain ⟨p, hp, hr, hs, -⟩ | ⟨k, f, hf, hs⟩ | ⟨hs, -⟩ := step_cases c s
  · rw [hs] at ho
    rcases List.mem_append.mp ho with ho | ho
    · exact h o ho
    · rw [List.mem_singleton.mp ho, ExternalOperation.Settled, hp, hr]; rfl
  · rw [hs] at ho
    unfold onOperation at ho
    split at ho
    · exact h o ho
    · rename_i p hp
      have hps := h p (List.mem_of_getElem? hp)
      rcases List.mem_or_eq_of_mem_set ho with ho | rfl
      · exact h o ho
      · rcases hf p with ⟨ha, -⟩ | he
        · exact ha.settled hps
        · rw [he]; exact hps
  · exact h o (hs ▸ ho)

/-! ### Dispatch happens once -/

def stateAt (i : Nat) (s : State) : Option OperationState := s.operations[i]?.map (·.state)

/-- The call takes operation `i` from `prepared` to `dispatched`. -/
def dispatches (i : Nat) (c : Call) (s : State) : Bool :=
  stateAt i s == some .prepared && stateAt i (step c s).2 == some .dispatched

/-- Operation `i` has left `prepared`. -/
def Left (i : Nat) (s : State) : Prop := ∃ o, s.operations[i]? = some o ∧ o.state ≠ .prepared

theorem step_left (c : Call) (h : Left i s) : Left i (step c s).2 := by
  obtain ⟨o, ho, hp⟩ := h
  obtain ⟨o', ho', rfl | ha⟩ := step_advance c ho
  · exact ⟨o', ho', hp⟩
  · exact ⟨o', ho', ha.forward.1⟩

theorem dispatched_once (i : Nat) (s : State) (cs : List Call) : Calls.count step (dispatches i) s cs ≤ 1 := by
  refine Calls.count_le_one (I := fun _ => True) (Q := Left i) (fun _ _ _ => trivial)
    (fun c _ _ h => step_left c h) ?_ ?_ trivial cs
  · rintro c s - ⟨o, ho, hp⟩
    simp [dispatches, stateAt, ho, hp]
  · rintro c s - h
    simp only [dispatches, stateAt, Bool.and_eq_true, beq_iff_eq, Option.map_eq_some_iff] at h
    obtain ⟨-, o, ho, hd⟩ := h
    exact ⟨o, ho, by simp [hd]⟩

end

/-- On a final operation only its own outcome with its own receipt succeeds again. -/
theorem final_replies {o : ExternalOperation} (h : o.state.final = true) :
    (∀ receipt, (o.confirmApplied receipt).1 = .ok () ↔ o.state = .applied ∧ o.receipt.map (·.text) = some receipt) ∧
    (∀ receipt, (o.confirmRejected receipt).1 = .ok () ↔ o.state = .rejected ∧ o.receipt.map (·.text) = some receipt) ∧
    (o.cancelUndispatched.1 = .ok () ↔ o.state = .cancelled) ∧ o.markOutcomeUnknown.1 ≠ .ok () ∧
    ∀ a c, (CodeApproval.dispatch a o c).1 ≠ .ok () := by
  have hfin : ∀ outcome receipt, outcome = .applied ∨ outcome = .rejected →
      ((o.finish outcome receipt).1 = .ok () ↔ o.state = outcome ∧ o.receipt.map (·.text) = some receipt) := by
    intro outcome receipt ho
    constructor
    · intro hr
      obtain ⟨r, -, hs, -⟩ | ⟨r, rfl, -, hs, hrec, -⟩ | ⟨e, he⟩ := o.finish_cases outcome receipt
      · rcases hs with hs | hs <;> (rw [hs] at h; cases h)
      · exact ⟨hs, by rw [hrec]; rfl⟩
      · rw [he] at hr; cases hr
    · rintro ⟨rfl, hr⟩
      obtain ⟨r, hrec, rfl⟩ := Option.map_eq_some_iff.mp hr
      simp only [ExternalOperation.finish, Id.parse_text]
      rcases ho with ho | ho <;> simp [ho, hrec]
  refine ⟨fun r => hfin _ r (.inl rfl), fun r => hfin _ r (.inr rfl), ?_, ?_, fun a c hr => ?_⟩
  · constructor
    · intro hr
      obtain ⟨hs | hs, -⟩ | ⟨e, he⟩ := o.cancelUndispatched_cases
      · rw [hs] at h; cases h
      · exact hs
      · rw [he] at hr; cases hr
    · intro hs
      simp only [ExternalOperation.cancelUndispatched, hs]
  · obtain ⟨hs | hs, -⟩ | ⟨e, he⟩ := o.markOutcomeUnknown_cases
    · rw [hs] at h; cases h
    · rw [hs] at h; cases h
    · rw [he]; intro hr; cases hr
  · obtain ⟨hs, -⟩ | ⟨e, he⟩ := a.dispatch_cases o c
    · rw [hs] at h; cases h
    · rw [he] at hr; cases hr

/-- The lifecycle of every operation prepared under an approval, over every sequence of calls `cs` and every
continuation `ds` of it. -/
theorem operation_lifecycle (a : CodeApproval) (cs ds : List Call) :
    (∀ (i : Nat) (o : ExternalOperation), (run ⟨a, []⟩ cs).operations[i]? = some o → ∃ o', (run ⟨a, []⟩ (cs ++ ds)).operations[i]? = some o' ∧
      (o'.id = o.id ∧ o'.effect = o.effect) ∧ (o.state.final = true → o' = o) ∧
      (o.state = .dispatched → o'.state ≠ .cancelled)) ∧
    (∀ i, Calls.count step (dispatches i) ⟨a, []⟩ cs ≤ 1) ∧
    (∀ o ∈ (run ⟨a, []⟩ cs).operations, (o.receipt.isSome = true ↔ o.state = .applied ∨ o.state = .rejected) ∧
      (o.state.final = true →
        (∀ receipt, (o.confirmApplied receipt).1 = .ok () ↔
          o.state = .applied ∧ o.receipt.map (·.text) = some receipt) ∧
        (∀ receipt, (o.confirmRejected receipt).1 = .ok () ↔
          o.state = .rejected ∧ o.receipt.map (·.text) = some receipt) ∧
        (o.cancelUndispatched.1 = .ok () ↔ o.state = .cancelled) ∧ o.markOutcomeUnknown.1 ≠ .ok () ∧
        ∀ b c, (CodeApproval.dispatch b o c).1 ≠ .ok ())) ∧
    ∀ c e, (step c (run ⟨a, []⟩ cs)).1 = some (.error e) → (step c (run ⟨a, []⟩ cs)).2 = run ⟨a, []⟩ cs := by
  refine ⟨fun i o ho => ?_, fun i => dispatched_once i _ cs, fun o ho => ?_, fun c e h => step_error h⟩
  · obtain ⟨o', ho', ha⟩ := run_advances ho ds
    refine ⟨o', by rw [run, Calls.run_append]; exact ho', ha.same, ha.of_final, fun hd => ?_⟩
    exact (ha.never_cancelled (by rw [hd]; decide) (by rw [hd]; decide)).2
  · have hs : o.Settled :=
      Calls.run_invariant (P := fun s : State => ∀ o ∈ s.operations, o.Settled) (fun c _ h => step_settled c h)
        (fun _ h => by cases h) cs o ho
    refine ⟨?_, final_replies⟩
    rw [← show o.state.terminal = o.receipt.isSome from hs]
    cases o.state <;> simp [OperationState.terminal]

end Lifecycle

end Mikaki
