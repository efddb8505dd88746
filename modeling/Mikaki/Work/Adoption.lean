import Mikaki.Work.Delegation

/-!
# Code approvals and external operations

A human approves one candidate for one target; an operation is prepared under
the approval, dispatched once against live guards, and settled by a receipt.
-/

namespace Mikaki

open Checks

/-- Primary authority records, including revoked producers. -/
structure AdoptionContext where
  candidate : Candidate
  grant : Grant
  run : Run
  target : CodeTarget
  environment : Environment

def AdoptionContext.checkTarget (self : AdoptionContext) : Except Denied Unit := do
  self.candidate.checkProducer self.grant self.run
  denyIf (self.target.owner ≠ self.candidate.owner) .ownerMismatch
  denyIf (self.target.writable = false ∨ self.target.repository.text ≠ self.candidate.adoptionRepository ∨
    self.target.reference ≠ self.candidate.adoptionRef ∨ self.target.head ≠ self.candidate.expectedHead) .staleTarget

structure CodeApproval where
  id : Id
  revision : Nat
  owner : Id
  ownerEpoch : Nat
  policyRevision : Nat
  candidate : Digest
  producer : ProducerRevision
  targetRevision : Nat
  expiresAt : Nat
  revoked : Bool
  deriving DecidableEq

structure Effect where
  approval : Id
  approvalRevision : Nat
  owner : Id
  ownerEpoch : Nat
  policyRevision : Nat
  producer : ProducerRevision
  candidate : Digest
  targetRevision : Nat
  repository : Id
  reference : String
  expectedHead : String
  commit : String
  deriving DecidableEq

inductive OperationState where
  | prepared
  | dispatched
  | outcomeUnknown
  | applied
  | rejected
  | cancelled
  deriving DecidableEq, Repr

structure ExternalOperation where
  id : Id
  effect : Effect
  state : OperationState
  receipt : Option Id
  deriving DecidableEq

namespace CodeApproval

def approve (id : String) (reviewed : Digest) (session : OwnerSession) (context : AdoptionContext) (expiresAt : Nat) :
    Except Denied CodeApproval := do
  session.check context.environment
  context.checkTarget
  denyIf (context.candidate.owner ≠ session.id) .ownerMismatch
  denyIf (context.candidate.digest ≠ reviewed) .reviewMismatch
  deadline context.environment.now expiresAt maxApprovalSeconds
  denyIf (expiresAt > session.expiresAt) .expired
  -- A fresh review may be of a revoked producer; later changes show in its revisions.
  let id ← Id.parse id
  return { id, revision := 1, owner := session.id, ownerEpoch := session.epoch
           policyRevision := context.environment.policyRevision, candidate := reviewed
           producer := .current context.grant context.run, targetRevision := context.target.revision, expiresAt
           revoked := false }

def revoke (self : CodeApproval) : Except Denied Unit × CodeApproval :=
  let (reply, revision, revoked) := revokeState self.revision self.revoked
  (reply, { self with revision, revoked })

def check (self : CodeApproval) (action : String) (context : AdoptionContext) : Except Denied Unit := do
  denyIf (action ≠ adoptCode) .unsupportedAction
  context.environment.checkOwner self.owner self.ownerEpoch
  denyIf (self.revoked = true) .revoked
  denyIf (context.environment.now ≥ self.expiresAt) .expired
  denyIf (context.environment.policyRevision ≠ self.policyRevision) .stalePolicy
  context.checkTarget
  denyIf (context.candidate.owner ≠ self.owner ∨ context.candidate.digest ≠ self.candidate) .reviewMismatch
  denyIf (self.targetRevision ≠ context.target.revision) .staleTarget
  denyIf (self.producer ≠ .current context.grant context.run) .staleAuthority

def effect (self : CodeApproval) (context : AdoptionContext) : Effect :=
  { approval := self.id, approvalRevision := self.revision, owner := self.owner, ownerEpoch := self.ownerEpoch
    policyRevision := self.policyRevision, producer := self.producer, candidate := self.candidate
    targetRevision := context.target.revision, repository := context.target.repository
    reference := context.target.reference, expectedHead := context.target.head, commit := context.candidate.commit }

def prepareOperation (self : CodeApproval) (action operationId : String) (context : AdoptionContext) :
    Except Denied ExternalOperation := do
  self.check action context
  let id ← Id.parse operationId
  return { id, effect := self.effect context, state := .prepared, receipt := none }

def dispatch (self : CodeApproval) (operation : ExternalOperation) (context : AdoptionContext) :
    Except Denied Unit × ExternalOperation :=
  if operation.state ≠ .prepared then (.error .invalidTransition, operation)
  else match self.check adoptCode context with
    | .error e => (.error e, operation)
    | .ok () =>
      if operation.effect ≠ self.effect context then (.error .conflict, operation)
      else (.ok (), { operation with state := .dispatched })

end CodeApproval

namespace ExternalOperation

def cancelUndispatched (self : ExternalOperation) : Except Denied Unit × ExternalOperation :=
  match self.state with
  | .prepared | .cancelled => (.ok (), { self with state := .cancelled })
  | _ => (.error .invalidTransition, self)

def markOutcomeUnknown (self : ExternalOperation) : Except Denied Unit × ExternalOperation :=
  match self.state with
  | .dispatched | .outcomeUnknown => (.ok (), { self with state := .outcomeUnknown })
  | _ => (.error .invalidTransition, self)

def finish (self : ExternalOperation) (outcome : OperationState) (receipt : String) :
    Except Denied Unit × ExternalOperation :=
  match Id.parse receipt with
  | .error e => (.error e, self)
  | .ok receipt =>
    match self.state with
    | .dispatched | .outcomeUnknown => (.ok (), { self with state := outcome, receipt := some receipt })
    | .applied | .rejected =>
      if self.state = outcome ∧ self.receipt = some receipt then (.ok (), self) else (.error .conflict, self)
    | _ => (.error .invalidTransition, self)

def confirmApplied (self : ExternalOperation) (receipt : String) : Except Denied Unit × ExternalOperation :=
  self.finish .applied receipt

def confirmRejected (self : ExternalOperation) (receipt : String) : Except Denied Unit × ExternalOperation :=
  self.finish .rejected receipt

end ExternalOperation

end Mikaki
