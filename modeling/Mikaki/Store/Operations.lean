import Mikaki.Store.Batches

/-!
# Adopting code through the store

The calls that prepare, dispatch, settle and cancel an external operation, and
those that revoke. A call reads rows one after the other, checks them, commits
one batch and reads again when the batch was not acknowledged. The service
clock of a call is any number.
-/

namespace Mikaki.WorkStore

open Checks Concurrent Concurrent.Prog Rows Transactions

inductive StoreError where
  | denied (reason : Denied)
  | storage
  deriving DecidableEq

abbrev Store := Calls StoreError Db Batch

/-- `?` on a result of the core. -/
def core {α : Type} (x : Except Denied α) : Store α :=
  match x with
  | .ok a => pure a
  | .error e => throw (.denied e)

/-- A row that has to be there. -/
def first {α : Type} (x : Option α) : Store α :=
  match x with
  | some a => pure a
  | none => throw (.denied .bindingMismatch)

/-- `number(value)?`. -/
def number (value : Nat) : Store Unit := fails (value > maxStoredInteger) (.denied .invalidInput)

/-! ## Reading -/

structure OwnerContext where
  owner : OwnerState
  session : OwnerSession
  id : String
  generation : Nat
  projection : String

def owner (sessionHash : String) : Store OwnerContext := do
  let d ← read
  let s ← first (d.around.sessions.find? fun s => d.liveSession sessionHash s.accountId s ∧ s.expiresAt > d.around.now)
  let p ← first d.around.policy
  let owner ← core (OwnerState.fromAuthority s.accountId s.epoch true)
  let session ← core (OwnerSession.fromVerifiedSession s.accountId s.epoch s.expiresAt)
  return { owner, session, id := s.accountId, generation := p.generation, projection := p.projectionRevision }

structure AccountContext where
  owner : OwnerState
  id : String
  generation : Nat

def AccountContext.environment (self : AccountContext) (now : Nat) : Environment :=
  { owner := self.owner, policyRevision := self.generation, now }

def account (id : String) : Store AccountContext := do
  let d ← read
  let a ← first (lookup AccountRow.accountId id d.around.accounts)
  let p ← first d.around.policy
  let owner ← core (OwnerState.fromAuthority a.accountId a.epoch a.active)
  return { owner, id := a.accountId, generation := p.generation }

def request [Hashes] (digest : Digest) : Store WorkRequest := do
  let d ← read
  let row ← first (lookup RequestRow.digest digest.toHex d.requests)
  let request ← core (WorkRequest.restoreAuthorityRecord row.body)
  fails (request.digest ≠ digest) (.denied .bindingMismatch)
  return request

def grant (id : String) : Store Grant := do
  let d ← read
  let row ← first (lookup GrantRow.grantId id d.grants)
  let grant ← core (Grant.restoreAuthorityRecord row.body row.revision row.revoked)
  fails (grant.id.text ≠ id) (.denied .bindingMismatch)
  return grant

def run (id : String) : Store Run := do
  let d ← read
  let row ← first (lookup RunRow.runId id d.runs)
  let run ← core (Run.restoreAuthorityRecord row.body row.revision row.revoked)
  fails (run.id.text ≠ id) (.denied .bindingMismatch)
  return run

def target (repository reference : String) : Store CodeTarget := do
  let d ← read
  let row ← first (lookup TargetRow.place (repository, reference) d.targets)
  core (CodeTarget.fromAuthority row.ownerId row.repositoryId row.reference row.head row.revision row.writable)

/-- The rows behind a run; its task repository is read too, which can fail, but an adoption does not use it. -/
structure ProducerContext where
  request : WorkRequest
  grant : Grant
  run : Run

def producer [Hashes] (runId : String) : Store ProducerContext := do
  let run ← run runId
  let grant ← grant run.grant.text
  let request ← request grant.request
  let _ ← read
  return { request, grant, run }

def candidate [Hashes] (digest : Digest) : Store Candidate := do
  let d ← read
  let row ← first (lookup CandidateRow.digest digest.toHex d.candidates)
  let d ← read
  let reference ← first (lookup CandidateRow.digest digest.toHex d.candidates)
  let producer ← producer reference.runId
  let candidate ← core (Candidate.restoreAuthorityRecord row.body producer.request producer.grant producer.run)
  fails (candidate.digest ≠ digest) (.denied .bindingMismatch)
  return candidate

def approval (id : String) : Store CodeApproval := do
  let d ← read
  let row ← first (lookup ApprovalRow.approvalId id d.approvals)
  let approval ← core (CodeApproval.restoreAuthorityRecord row.body row.revision row.revoked)
  fails (approval.id.text ≠ id) (.denied .bindingMismatch)
  return approval

structure CandidateContext where
  producer : ProducerContext
  candidate : Candidate
  target : CodeTarget
  account : AccountContext

def CandidateContext.adoption (self : CandidateContext) (now : Nat) : AdoptionContext :=
  { candidate := self.candidate, grant := self.producer.grant, run := self.producer.run, target := self.target
    environment := self.account.environment now }

def candidateContext [Hashes] (digest : Digest) : Store CandidateContext := do
  let candidate ← candidate digest
  let producer ← producer candidate.producer.run.text
  let target ← target producer.request.input.adoptionRepository producer.request.input.adoptionRef
  let account ← account candidate.owner.text
  return { producer, candidate, target, account }

/-! ## Operations -/

/-- `OperationRow::restore`. -/
def OperationRow.restore (row : OperationRow) (id : String) : Except Denied ExternalOperation := do
  let op ← ExternalOperation.restoreAuthorityRecord row.body row.state row.receipt
  denyIf (op.id.text ≠ id) .bindingMismatch
  return op

/-- The row of an operation, where there is one. -/
def operationRow (id : String) : Store (Option OperationRow) := do
  let d ← read
  return lookup OperationRow.operationId id d.operations

def operation (id : String) : Store ExternalOperation := do
  let row ← operationRow id
  let row ← first row
  core (row.restore id)

/-- What is left to do where the batch of a preparation was not acknowledged. -/
def recoverPrepared (approvalId id body : String) (error : StoreError) : Store ExternalOperation := do
  match ← operationRow id with
  | some row => if row.body = body then core (row.restore id) else throw (.denied .conflict)
  | none =>
    let d ← read
    if ∃ o ∈ d.operations, o.approvalId = approvalId then throw (.denied .conflict) else throw error

def prepareNew [Hashes] (now : Nat) (approvalId id : String) : Store ExternalOperation := do
  let approval ← approval approvalId
  let context ← candidateContext approval.candidate
  let op ← core (approval.prepareOperation adoptCode id (context.adoption now))
  let body ← core op.authorityRecord
  match ← attempt (commit (.prepareOperation body)) with
  | .ok () => operation id
  | .error error => recoverPrepared approvalId id body error

def prepareOperationCall [Hashes] (now : Nat) (approvalId id : String) : Store ExternalOperation := do
  match ← operationRow id with
  | some row =>
    fails (row.approvalId ≠ approvalId) (.denied .conflict)
    core (row.restore id)
  | none => prepareNew now approvalId id

inductive DispatchResult where
  | started (op : ExternalOperation)
  | existing (op : ExternalOperation)

/-- `approval.dispatch(&mut op, ..)?`. -/
def moved (x : Except Denied Unit × ExternalOperation) : Store ExternalOperation := do
  core x.1
  return x.2

def dispatchCall [Hashes] (now : Nat) (id : String) : Store DispatchResult := do
  let row ← operationRow id
  let row ← first row
  let op ← core (row.restore id)
  if op.state ≠ .prepared then return .existing op
  else
    let approval ← approval row.approvalId
    let context ← candidateContext approval.candidate
    let op ← moved (approval.dispatch op (context.adoption now))
    number row.revision
    match ← attempt (commit (.dispatch id row.revision row.body)) with
    | .ok () => return .started op
    | .error error =>
      let current ← operation id
      if current.state ≠ .prepared then return .existing current else throw error

inductive Outcome where
  | unknown
  | applied (receipt : String)
  | rejected (receipt : String)

def Outcome.record (outcome : Outcome) (op : ExternalOperation) : Except Denied Unit × ExternalOperation :=
  match outcome with
  | unknown => op.markOutcomeUnknown
  | applied receipt => op.confirmApplied receipt
  | rejected receipt => op.confirmRejected receipt

def recordOutcomeCall (id : String) (outcome : Outcome) : Store ExternalOperation := do
  let row ← operationRow id
  let row ← first row
  let op ← core (row.restore id)
  let op ← moved (outcome.record op)
  if op.state = row.state ∧ op.receipt.map (·.text) = row.receipt then return op
  else
    number row.revision
    match ← attempt (commit (.recordOutcome id row.revision row.body op.state (op.receipt.map (·.text)) row.state)) with
    | .ok () => return op
    | .error error =>
      let current ← operation id
      if current.state = op.state ∧ current.receipt = op.receipt then return current else throw error

def cancelOperationCall (sessionHash id : String) : Store ExternalOperation := do
  let owner ← owner sessionHash
  let row ← operationRow id
  let row ← first row
  fails (row.ownerId ≠ owner.id) (.denied .ownerMismatch)
  let op ← core (row.restore id)
  let op ← moved op.cancelUndispatched
  if row.state = .cancelled then return op
  else
    number row.revision
    let result ← attempt (commit (.cancelOperation id row.revision row.body sessionHash))
    let current ← operation id
    match result with
    | .ok () => return current
    | .error error => if current.state = .cancelled then return current else throw error

/-! ## Revocations -/

/-- `revoke`, with the lookup of one of the three kinds of row: whether it is revoked already. -/
def revoke (sessionHash : String) (revoked : Db → String → Option Bool) (batch : Batch) : Store Unit := do
  let owner ← owner sessionHash
  let d ← read
  if ← first (revoked d owner.id) then return ()
  else
    match ← attempt (commit batch) with
    | .ok () => return ()
    | .error (.denied .staleAuthority) =>
      let d ← read
      if ← first (revoked d owner.id) then return () else throw (.denied .staleAuthority)
    | .error error => throw error

/-- The request that the row belongs to is the owner's. -/
def Db.requestOwned (d : Db) (digest owner : String) : Prop := ∃ w ∈ d.requests, w.digest = digest ∧ w.ownerId = owner

instance (d : Db) (digest owner : String) : Decidable (d.requestOwned digest owner) := List.decidableBEx _ _

def revokeGrantCall (sessionHash id : String) : Store Unit :=
  revoke sessionHash (fun d owner => (d.grants.find? fun g => g.grantId = id ∧ d.requestOwned g.requestDigest owner).map
    GrantRow.revoked) (.revokeGrant id sessionHash)

def revokeRunCall (sessionHash id : String) : Store Unit :=
  revoke sessionHash (fun d owner => (d.runs.find? fun r => r.runId = id ∧ d.requestOwned r.requestDigest owner).map
    RunRow.revoked) (.revokeRun id sessionHash)

def revokeApprovalCall (sessionHash id : String) : Store Unit :=
  revoke sessionHash (fun d owner => (d.approvals.find? fun a => a.approvalId = id ∧ a.ownerId = owner).map
    ApprovalRow.revoked) (.revokeApproval id sessionHash)

/-! ## The callers -/

/-- What a call returns when it succeeds. -/
inductive Reply where
  | operation (op : ExternalOperation)
  | dispatch (result : DispatchResult)
  | done

/-- A call with its reply. -/
def replying {α : Type} (x : Store α) (f : α → Reply) : Store Reply := do
  let a ← x
  return f a

/-- Who sends a batch that concerns no operation is not looked at, and the values bound to it are any. -/
inductive Entry [Hashes] : Prog (Request StoreError Db Batch) Request.Reply (Except StoreError Reply) → Prop
  | prepare (now : Nat) (approvalId id : String) : Entry (replying (prepareOperationCall now approvalId id) .operation).run
  | dispatch (now : Nat) (id : String) : Entry (replying (dispatchCall now id) .dispatch).run
  | recordOutcome (id : String) (outcome : Outcome) : Entry (replying (recordOutcomeCall id outcome) .operation).run
  | cancel (sessionHash id : String) : Entry (replying (cancelOperationCall sessionHash id) .operation).run
  | revokeGrant (sessionHash id : String) : Entry (replying (revokeGrantCall sessionHash id) fun _ => .done).run
  | revokeRun (sessionHash id : String) : Entry (replying (revokeRunCall sessionHash id) fun _ => .done).run
  | revokeApproval (sessionHash id : String) : Entry (replying (revokeApprovalCall sessionHash id) fun _ => .done).run
  | elsewhere (b : Batch) (h : b.elsewhere = true) : Entry (replying (commit b) fun _ => .done).run

end Mikaki.WorkStore
