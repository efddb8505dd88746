import Mikaki.Lib.Calls
import Mikaki.Lib.Table
import Mikaki.Work.AdoptionRecordsSound

/-!
# Dispatch over the primary store

The primary store keeps grants, runs, candidates, approvals and operations
under their identifiers, and every check is made on the records it holds when
the call arrives. Each approval and each operation is kept with what was
presented when it was made.
-/

namespace Mikaki

open Checks Table

namespace Dispatch

/-- The revisions, the head and the epochs an approval and a context show. -/
structure Presented where
  approvalRevision : Nat
  grantRevision : Nat
  runRevision : Nat
  targetRevision : Nat
  head : String
  policyRevision : Nat
  ownerEpoch : Nat
  deriving DecidableEq

def present (a : CodeApproval) (c : AdoptionContext) : Presented :=
  { approvalRevision := a.revision, grantRevision := c.grant.revision, runRevision := c.run.revision
    targetRevision := c.target.revision, head := c.target.head, policyRevision := c.environment.policyRevision
    ownerEpoch := c.environment.owner.epoch }

structure ApprovalRow where
  approval : CodeApproval
  created : Presented

structure OperationRow where
  operation : ExternalOperation
  prepared : Presented

structure Store where
  grants : Id → Option Grant
  runs : Id → Option Run
  candidates : Digest → Option Candidate
  approvals : Id → Option ApprovalRow
  operations : Id → Option OperationRow

def Store.empty : Store := ⟨fun _ => none, fun _ => none, fun _ => none, fun _ => none, fun _ => none⟩

/-- The records a call names, and the target and the environment it finds. -/
structure Place where
  candidate : Digest
  grant : Id
  run : Id
  target : CodeTarget
  environment : Environment

def Store.context (s : Store) (p : Place) : Option AdoptionContext :=
  match s.candidates p.candidate, s.grants p.grant, s.runs p.run with
  | some candidate, some grant, some run =>
    some { candidate, grant, run, target := p.target, environment := p.environment }
  | _, _, _ => none

inductive Call where
  | saveGrant (grant : Grant)
  | saveRun (run : Run)
  | saveCandidate (candidate : Candidate)
  | approve (id : String) (reviewed : Digest) (session : OwnerSession) (place : Place) (expiresAt : Nat)
  | prepare (approval : Id) (action id : String) (place : Place)
  | dispatch (approval operation : Id) (place : Place)
  | revokeApproval (id : Id)
  | revokeGrant (id : Id)
  | revokeRun (id : Id)

/-- No reply where a record is missing. -/
abbrev Reply := Option (Except Denied Unit)

/-- Keep what was made under a key that is free. -/
def insertNew {κ α : Type} (t : κ → Option α) (k : κ) (s s' : Store) : Reply × Store :=
  ifFree t k (some (.error .conflict), s) (some (.ok ()), s')

namespace Store

def approve (s : Store) (id : String) (reviewed : Digest) (session : OwnerSession) (place : Place) (expiresAt : Nat) :
    Reply × Store :=
  match s.context place with
  | none => (none, s)
  | some c =>
    match CodeApproval.approve id reviewed session c expiresAt with
    | .error e => (some (.error e), s)
    | .ok a => insertNew s.approvals a.id s { s with approvals := put s.approvals a.id ⟨a, present a c⟩ }

def prepare (s : Store) (approval : Id) (action id : String) (place : Place) : Reply × Store :=
  match s.approvals approval, s.context place with
  | some row, some c =>
    match row.approval.prepareOperation action id c with
    | .error e => (some (.error e), s)
    | .ok o => insertNew s.operations o.id s { s with operations := put s.operations o.id ⟨o, present row.approval c⟩ }
  | _, _ => (none, s)

def dispatch (s : Store) (approval operation : Id) (place : Place) : Reply × Store :=
  match s.approvals approval, s.operations operation, s.context place with
  | some row, some op, some c =>
    (some (row.approval.dispatch op.operation c).1, { s with
      operations := put s.operations operation { op with operation := (row.approval.dispatch op.operation c).2 } })
  | _, _, _ => (none, s)

def revokeApproval (s : Store) (id : Id) : Reply × Store :=
  match s.approvals id with
  | none => (none, s)
  | some row =>
    (some row.approval.revoke.1, { s with approvals := put s.approvals id { row with approval := row.approval.revoke.2 } })

def revokeGrant (s : Store) (id : Id) : Reply × Store :=
  match s.grants id with
  | none => (none, s)
  | some g => (some g.revoke.1, { s with grants := put s.grants id g.revoke.2 })

def revokeRun (s : Store) (id : Id) : Reply × Store :=
  match s.runs id with
  | none => (none, s)
  | some n => (some n.revoke.1, { s with runs := put s.runs id n.revoke.2 })

end Store

def step (c : Call) (s : Store) : Reply × Store :=
  match c with
  | .saveGrant g => insertNew s.grants g.id s { s with grants := put s.grants g.id g }
  | .saveRun n => insertNew s.runs n.id s { s with runs := put s.runs n.id n }
  | .saveCandidate c => insertNew s.candidates c.digest s { s with candidates := put s.candidates c.digest c }
  | .approve id reviewed session place expiresAt => s.approve id reviewed session place expiresAt
  | .prepare approval action id place => s.prepare approval action id place
  | .dispatch approval operation place => s.dispatch approval operation place
  | .revokeApproval id => s.revokeApproval id
  | .revokeGrant id => s.revokeGrant id
  | .revokeRun id => s.revokeRun id

abbrev run : Store → List Call → Store := Calls.run step

/-! ## What one call changes -/

/-- Every change a call can make to the store. -/
inductive Change (s : Store) : Store → Prop
  | same : Change s s
  | grant {g : Grant} (h : s.grants g.id = none) : Change s { s with grants := put s.grants g.id g }
  | run {n : Run} (h : s.runs n.id = none) : Change s { s with runs := put s.runs n.id n }
  | candidate {c : Candidate} (h : s.candidates c.digest = none) :
      Change s { s with candidates := put s.candidates c.digest c }
  | approve {id : String} {reviewed : Digest} {session : OwnerSession} {p : Place} {x : Nat} {c : AdoptionContext}
      {a : CodeApproval} (hc : s.context p = some c) (ha : CodeApproval.approve id reviewed session c x = .ok a)
      (h : s.approvals a.id = none) : Change s { s with approvals := put s.approvals a.id ⟨a, present a c⟩ }
  | prepare {k : Id} {action id : String} {p : Place} {c : AdoptionContext} {row : ApprovalRow}
      {o : ExternalOperation} (hr : s.approvals k = some row) (hc : s.context p = some c)
      (ho : row.approval.prepareOperation action id c = .ok o) (h : s.operations o.id = none) :
      Change s { s with operations := put s.operations o.id ⟨o, present row.approval c⟩ }
  | moved {k : Id} {op : OperationRow} {o : ExternalOperation} (h : s.operations k = some op)
      (ho : o.id = op.operation.id ∧ o.effect = op.operation.effect) :
      Change s { s with operations := put s.operations k { op with operation := o } }
  | revokeApproval {k : Id} {row : ApprovalRow} {a : CodeApproval} (h : s.approvals k = some row)
      (ha : row.approval.Later a) : Change s { s with approvals := put s.approvals k { row with approval := a } }
  | revokeGrant {k : Id} {g g' : Grant} (h : s.grants k = some g) (hg : g.Later g') :
      Change s { s with grants := put s.grants k g' }
  | revokeRun {k : Id} {n n' : Run} (h : s.runs k = some n) (hn : n.Later n') :
      Change s { s with runs := put s.runs k n' }

theorem change_insertNew {κ α : Type} {t : κ → Option α} {k : κ} {s s' : Store} (h : t k = none → Change s s') :
    Change s (insertNew t k s s').2 :=
  ifFree_cases (P := fun x : Reply × Store => Change s x.2) .same h

theorem step_change (c : Call) (s : Store) : Change s (step c s).2 := by
  cases c with
  | saveGrant g => exact change_insertNew .grant
  | saveRun n => exact change_insertNew .run
  | saveCandidate c => exact change_insertNew .candidate
  | approve id reviewed session p x =>
    rw [step, Store.approve]
    split
    · exact .same
    · rename_i c hc
      split
      · exact .same
      · rename_i a ha
        exact change_insertNew (.approve hc ha)
  | prepare k action id p =>
    rw [step, Store.prepare]
    split
    · rename_i row c hr hc
      split
      · exact .same
      · rename_i o ho
        exact change_insertNew (.prepare hr hc ho)
    · exact .same
  | dispatch k o p =>
    rw [step, Store.dispatch]
    split
    · rename_i row op c hr ho hc
      obtain ⟨-, -, -, hd⟩ | ⟨e, hd⟩ := row.approval.dispatch_cases op.operation c <;> rw [hd]
      · exact .moved ho ⟨rfl, rfl⟩
      · exact .moved ho ⟨rfl, rfl⟩
    · exact .same
  | revokeApproval k =>
    rw [step, Store.revokeApproval]
    split
    · exact .same
    · rename_i row hr
      exact .revokeApproval hr row.approval.later_revoke
  | revokeGrant k =>
    rw [step, Store.revokeGrant]
    split
    · exact .same
    · rename_i g hg
      exact .revokeGrant hg g.later_revoke
  | revokeRun k =>
    rw [step, Store.revokeRun]
    split
    · exact .same
    · rename_i n hn
      exact .revokeRun hn n.later_revoke

end Dispatch

end Mikaki
