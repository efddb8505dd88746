import Mikaki.Lib.Transactions
import Mikaki.Store.Tables

/-!
# The batches of the managed-work store

Each batch is one transaction: its statements in order, each with the guard on
its row count, and the triggers that they fire. A batch that a guard, a
constraint or a trigger stops changes nothing.
-/

namespace Mikaki.WorkStore

open Rows

/-! ## Triggers -/

/-- `work_grant_monotonic`, `work_run_monotonic` and `work_code_approval_monotonic`: only a revocation, once. -/
def GrantRow.revoke (g : GrantRow) : GrantRow := { g with revision := 2, revoked := true }
def RunRow.revoke (r : RunRow) : RunRow := { r with revision := 2, revoked := true }
def ApprovalRow.revoke (a : ApprovalRow) : ApprovalRow := { a with revision := 2, revoked := true }

/-- A trigger's `UPDATE work_grant SET revision=2,revoked=1 WHERE revoked=0 AND ..`. -/
def Db.revokeGrants (d : Db) (p : GrantRow → Prop) [DecidablePred p] : Db :=
  { d with grants := update (fun g => g.revoked = false ∧ p g) GrantRow.revoke d.grants }

/-- `work_operation_transition`: what it allows. -/
def operationTransition (old new : OperationRow) : Prop :=
  new.operationId = old.operationId ∧ new.approvalId = old.approvalId ∧ new.ownerId = old.ownerId ∧
    new.body = old.body ∧ new.revision = old.revision + 1 ∧ new.Check ∧
    ((old.state = .prepared ∧ (new.state = .dispatched ∨ new.state = .cancelled)) ∨
      (old.state = .dispatched ∧ (new.state = .outcomeUnknown ∨ new.state = .applied ∨ new.state = .rejected)) ∨
      (old.state = .outcomeUnknown ∧ (new.state = .applied ∨ new.state = .rejected)))

/-- `work_target_revision`. -/
def targetRevision (old new : TargetRow) : Prop :=
  new.repositoryId = old.repositoryId ∧ new.reference = old.reference ∧ new.ownerId = old.ownerId ∧
    new.revision > old.revision

/-- `work_task_revision` and `work_prepared_task_metadata`. -/
def taskRevision (d : Db) (old new : TaskRow) : Prop :=
  new.repositoryId = old.repositoryId ∧ new.ownerId = old.ownerId ∧ new.revision > old.revision ∧
    ((∃ k ∈ d.preparedTasks, k.repositoryId = old.repositoryId) →
      new.disclosureDigest = old.disclosureDigest ∧ new.recipient = old.recipient ∧ new.workload = old.workload ∧
        new.codeRepository = old.codeRepository ∧ new.baseCommit = old.baseCommit)

/-- `work_preparation_transition` and the table's own constraint. -/
def preparationTransition (old new : PreparationRow) : Prop :=
  new = { old with state := new.state, revision := old.revision + 1, evidence := new.evidence
                   cleanupReceipt := new.cleanupReceipt } ∧
    (old.evidence.isSome → new.evidence = old.evidence) ∧
    ((old.state = .reserved ∧ (new.state = .dispatched ∨ new.state = .cleaned) ∧ new.evidence = none ∧
        new.cleanupReceipt = none) ∨
      (old.state = .dispatched ∧ new.state = .verified ∧ new.evidence.isSome ∧ new.cleanupReceipt = none) ∨
      ((old.state = .dispatched ∨ old.state = .verified) ∧ new.state = .cleanupPending ∧ new.evidence = old.evidence ∧
        new.cleanupReceipt = none) ∨
      (old.state = .cleanupPending ∧ new.state = .cleaned ∧ new.evidence = old.evidence ∧ new.cleanupReceipt.isSome))

/-- `work_preparation_live`. -/
def preparationLive (d : Db) (old new : PreparationRow) : Prop :=
  (new.state = .dispatched ∨ new.state = .verified) →
    old.expiresAt > d.around.now ∧ old.disclosureDigest ∈ d.around.sourceCurrent

instance : DecidableRel operationTransition := fun _ _ => inferInstanceAs (Decidable (_ ∧ _))
instance : DecidableRel targetRevision := fun _ _ => inferInstanceAs (Decidable (_ ∧ _))
instance (d : Db) : DecidableRel (taskRevision d) := fun _ _ => inferInstanceAs (Decidable (_ ∧ _))
instance : DecidableRel preparationTransition := fun _ _ => inferInstanceAs (Decidable (_ ∧ _))
instance (d : Db) : DecidableRel (preparationLive d) := fun _ _ => inferInstanceAs (Decidable (_ → _))

/-! ## Requests -/

/-- `save-request.sql`. -/
def saveRequestRow (d : Db) (body projection sessionHash : String) : Option Db := do
  let digest ← textAt body ["data", "digest"]
  let requestId ← textAt body ["data", "input", "request_id"]
  let owner ← textAt body ["data", "owner"]
  let revision ← numberAt body ["data", "input", "revision"]
  let ownerEpoch ← numberAt body ["data", "owner_epoch"]
  let policyGeneration ← numberAt body ["data", "policy_revision"]
  let deadline ← numberAt body ["data", "input", "deadline"]
  require (deadline > d.around.now ∧ deadline ≤ d.around.now + 3600 ∧
    d.policyCurrent policyGeneration projection ∧
    (∃ s ∈ d.around.sessions, d.liveSession sessionHash owner s ∧ s.epoch = ownerEpoch ∧ s.expiresAt > d.around.now) ∧
    (((∀ h ∈ d.heads, h.place ≠ (owner, requestId)) ∧ revision = 1) ∨
      ∃ h ∈ d.heads, h.place = (owner, requestId) ∧ h.revision + 1 = revision))
  let requests ← insert RequestRow.digest RequestRow.Check
    { digest, requestId, ownerId := owner, revision, ownerEpoch, policyGeneration, policyProjection := projection
      expiresAt := deadline, body } d.requests
  return { d with requests }

/-- `save-head.sql`, with `work_head_revision` and `work_head_invalidates`. -/
def saveHead (d : Db) (digest : String) : Option Db := do
  let w ← lookup RequestRow.digest digest d.requests
  match lookup HeadRow.place (w.ownerId, w.requestId) d.heads with
  | none =>
    return { d with heads := d.heads ++ [{ ownerId := w.ownerId, requestId := w.requestId, revision := w.revision, digest }] }
  | some old =>
    let heads ← updateOne (fun h => h.place = (w.ownerId, w.requestId) ∧ h.revision + 1 = w.revision)
      (fun h => { h with revision := w.revision, digest }) (fun h h' => h'.revision = h.revision + 1) d.heads
    return { d with heads }.revokeGrants fun g => g.requestDigest = old.digest

/-- `bind-preparation.sql`, with `work_request_preparation_binding`. -/
def bindPreparation (d : Db) (digest preparation : String) : Option Db := do
  let t ← lookup PreparedTaskRow.preparationId preparation d.preparedTasks
  let w ← lookup RequestRow.digest digest d.requests
  let p ← lookup PreparationRow.operationId t.preparationId d.preparations
  let k ← lookup TaskRow.repositoryId t.repositoryId d.tasks
  require (d.preparedTaskCurrent t.repositoryId ∧
    textAt w.body ["data", "input", "task_repository"] = some t.repositoryId ∧
    textAt w.body ["data", "input", "disclosure_digest"] = some p.disclosureDigest ∧
    textAt w.body ["data", "input", "recipient"] = some k.recipient ∧
    textAt w.body ["data", "input", "workload"] = some k.workload ∧
    textAt w.body ["data", "input", "code_repository"] = some k.codeRepository ∧
    textAt w.body ["data", "input", "base_commit"] = some k.baseCommit ∧
    w.ownerId = p.ownerId ∧ w.ownerEpoch = p.ownerEpoch ∧ w.policyGeneration = p.policyGeneration ∧
    w.policyProjection = p.policyProjection ∧ w.expiresAt ≤ p.expiresAt ∧ w.expiresAt > d.around.now ∧
    ∀ r ∈ d.requestPreparations, r.repositoryId = t.repositoryId → ∀ v ∈ d.requests, v.digest = r.requestDigest →
      v.ownerId = w.ownerId ∧ v.requestId = w.requestId)
  let requestPreparations ← insert RequestPreparationRow.requestDigest (fun _ => True)
    { requestDigest := digest, repositoryId := t.repositoryId } d.requestPreparations
  return { d with requestPreparations }

/-- The batch of `save_request_with_binding`. -/
def saveRequest (d : Db) (body projection sessionHash : String) (preparation : Option String) : Option Db := do
  let digest ← textAt body ["data", "digest"]
  let d ← saveRequestRow d body projection sessionHash
  let d ← saveHead d digest
  match preparation with
  | none => return d
  | some preparation => bindPreparation d digest preparation

/-! ## Grants, runs and candidates -/

/-- `save-grant.sql`. -/
def saveGrant (d : Db) (body sessionHash : String) : Option Db := do
  let id ← textAt body ["data", "id"]
  let w ← d.requests.find? fun w => d.liveRequest w ∧ textAt body ["data", "request"] = some w.digest ∧
    numberAt body ["data", "expires_at"] = some w.expiresAt ∧
    ∃ s ∈ d.around.sessions, s.secretHash = sessionHash ∧ s.accountId = w.ownerId ∧ s.credentialActive = true ∧
      s.epoch = w.ownerEpoch ∧ s.revoked = false ∧ s.expiresAt > d.around.now
  let t ← d.tasks.find? fun t => textAt w.body ["data", "input", "task_repository"] = some t.repositoryId ∧
    numberAt body ["data", "task_revision"] = some t.revision
  let grants ← insert GrantRow.grantId GrantRow.Check
    { grantId := id, requestDigest := w.digest, taskRevision := t.revision, expiresAt := w.expiresAt, revision := 1
      revoked := false, body } d.grants
  return { d with grants }

/-- `save-run.sql`. -/
def saveRun (d : Db) (body : String) (actorExpires : Nat) : Option Db := do
  let id ← textAt body ["data", "id"]
  let expires ← numberAt body ["data", "expires_at"]
  let g ← d.grants.find? fun g => d.liveGrant g ∧ textAt body ["data", "grant"] = some g.grantId ∧
    textAt body ["data", "request"] = some g.requestDigest ∧ expires > d.around.now ∧ expires ≤ g.expiresAt ∧
    actorExpires > d.around.now
  let w ← lookup RequestRow.digest g.requestDigest d.requests
  require (textAt body ["data", "client"] = textAt w.body ["data", "input", "recipient"] ∧
    textAt body ["data", "workload"] = textAt w.body ["data", "input", "workload"] ∧
    (textAt body ["data", "client"]).isSome ∧ (textAt body ["data", "workload"]).isSome)
  let runs ← insert RunRow.runId RunRow.Check
    { runId := id, grantId := g.grantId, requestDigest := g.requestDigest, expiresAt := expires, revision := 1
      revoked := false, body } d.runs
  return { d with runs }

/-- What `save-candidate.sql` asks of the run, the grant and the request it selects. -/
def candidateOf (d : Db) (body : String) (r : RunRow) (g : GrantRow) (w : RequestRow) : Prop :=
  d.liveRun r ∧ d.liveGrant g ∧ g.grantId = r.grantId ∧ w.digest = r.requestDigest ∧
    textAt body ["data", "producer", "run"] = some r.runId ∧
    textAt body ["data", "producer", "grant"] = some g.grantId ∧
    numberAt body ["data", "producer", "run_revision"] = some r.revision ∧
    numberAt body ["data", "producer", "grant_revision"] = some g.revision ∧
    textAt body ["data", "request"] = some w.digest ∧ textAt body ["data", "owner"] = some w.ownerId ∧
    numberAt body ["data", "provenance", "owner_epoch"] = some w.ownerEpoch ∧
    numberAt body ["data", "provenance", "policy_revision"] = some w.policyGeneration ∧
    numberAt body ["data", "provenance", "request_revision"] = some w.revision ∧
    numberAt body ["data", "provenance", "task_revision"] = some g.taskRevision ∧
    textAt r.body ["data", "proof_key"] = textAt body ["data", "provenance", "proof_key"] ∧
    (textAt r.body ["data", "proof_key"]).isSome ∧
    (∃ n ∈ numberAt body ["data", "provenance", "authentication_expires"], n > d.around.now) ∧
    (∃ n ∈ numberAt body ["data", "provenance", "expires_at"], n > d.around.now) ∧
    textAt body ["data", "provenance", "disclosure"] = textAt w.body ["data", "input", "disclosure_digest"] ∧
    (textAt w.body ["data", "input", "disclosure_digest"]).isSome

instance (d : Db) (body : String) (r : RunRow) (g : GrantRow) (w : RequestRow) : Decidable (candidateOf d body r g w) :=
  inferInstanceAs (Decidable (_ ∧ _))

/-- `save-candidate.sql`. -/
def saveCandidate (d : Db) (body : String) : Option Db := do
  let digest ← textAt body ["data", "digest"]
  let r ← d.runs.find? fun r => textAt body ["data", "producer", "run"] = some r.runId
  let g ← lookup GrantRow.grantId r.grantId d.grants
  let w ← lookup RequestRow.digest r.requestDigest d.requests
  require (candidateOf d body r g w)
  let candidates ← insert CandidateRow.digest CandidateRow.Check
    { digest, requestDigest := r.requestDigest, ownerId := w.ownerId, grantId := r.grantId, runId := r.runId, body }
    d.candidates
  return { d with candidates }

/-! ## Approvals and revocations -/

/-- What `save-approval.sql` asks of the rows it selects. -/
def approvalOf (d : Db) (body projection sessionHash : String) (c : CandidateRow) (g : GrantRow) (r : RunRow)
    (t : TargetRow) (expires ownerEpoch policyGeneration : Nat) : Prop :=
  r.grantId = g.grantId ∧ d.ownerCurrent c.ownerId ownerEpoch ∧ d.policyCurrent policyGeneration projection ∧
    textAt c.body ["data", "adoption_repository"] = some t.repositoryId ∧
    textAt c.body ["data", "adoption_ref"] = some t.reference ∧ t.ownerId = c.ownerId ∧ t.writable = true ∧
    textAt c.body ["data", "expected_head"] = some t.head ∧ textAt body ["data", "owner"] = some c.ownerId ∧
    textAt body ["data", "producer", "grant"] = some g.grantId ∧
    numberAt body ["data", "producer", "grant_revision"] = some g.revision ∧
    textAt body ["data", "producer", "run"] = some r.runId ∧
    numberAt body ["data", "producer", "run_revision"] = some r.revision ∧
    numberAt body ["data", "target_revision"] = some t.revision ∧ expires > d.around.now ∧
    expires ≤ d.around.now + 300 ∧
    ∃ s ∈ d.around.sessions, s.secretHash = sessionHash ∧ s.accountId = c.ownerId ∧ s.credentialActive = true ∧
      s.epoch = ownerEpoch ∧ s.revoked = false ∧ s.expiresAt ≥ expires

instance (d : Db) (body projection sessionHash : String) (c : CandidateRow) (g : GrantRow) (r : RunRow) (t : TargetRow)
    (expires ownerEpoch policyGeneration : Nat) :
    Decidable (approvalOf d body projection sessionHash c g r t expires ownerEpoch policyGeneration) :=
  inferInstanceAs (Decidable (_ ∧ _))

/-- `save-approval.sql`. -/
def saveApproval (d : Db) (body projection sessionHash : String) : Option Db := do
  let id ← textAt body ["data", "id"]
  let expires ← numberAt body ["data", "expires_at"]
  let ownerEpoch ← numberAt body ["data", "owner_epoch"]
  let policyGeneration ← numberAt body ["data", "policy_revision"]
  let c ← d.candidates.find? fun c => textAt body ["data", "candidate"] = some c.digest
  let g ← lookup GrantRow.grantId c.grantId d.grants
  let r ← lookup RunRow.runId c.runId d.runs
  let t ← d.targets.find? fun t => textAt c.body ["data", "adoption_repository"] = some t.repositoryId ∧
    textAt c.body ["data", "adoption_ref"] = some t.reference
  require (approvalOf d body projection sessionHash c g r t expires ownerEpoch policyGeneration)
  let approvals ← insert ApprovalRow.approvalId ApprovalRow.Check
    { approvalId := id, candidateDigest := c.digest, ownerId := c.ownerId, ownerEpoch, policyGeneration
      policyProjection := projection, grantId := g.grantId, grantRevision := g.revision, runId := r.runId
      runRevision := r.revision, targetRevision := t.revision, expiresAt := expires, revision := 1, revoked := false
      body } d.approvals
  return { d with approvals }

/-- `revoke-grant.sql`. -/
def revokeGrant (d : Db) (id sessionHash : String) : Option Db := do
  let grants ← updateOne (fun g => g.grantId = id ∧ g.revoked = false ∧
    ∃ w ∈ d.requests, w.digest = g.requestDigest ∧ d.sessionCurrent sessionHash w.ownerId)
    GrantRow.revoke (fun _ g => standing g.revision g.revoked) d.grants
  return { d with grants }

/-- `revoke-run.sql`. -/
def revokeRun (d : Db) (id sessionHash : String) : Option Db := do
  let runs ← updateOne (fun r => r.runId = id ∧ r.revoked = false ∧
    ∃ w ∈ d.requests, w.digest = r.requestDigest ∧ d.sessionCurrent sessionHash w.ownerId)
    RunRow.revoke (fun _ r => standing r.revision r.revoked) d.runs
  return { d with runs }

/-- `revoke-approval.sql`. -/
def revokeApproval (d : Db) (id sessionHash : String) : Option Db := do
  let approvals ← updateOne (fun a => a.approvalId = id ∧ a.revoked = false ∧ d.sessionCurrent sessionHash a.ownerId)
    ApprovalRow.revoke (fun _ a => standing a.revision a.revoked) d.approvals
  return { d with approvals }

/-! ## Operations -/

/-- `prepare-operation.sql`. -/
def prepareOperation (d : Db) (body : String) : Option Db := do
  let id ← textAt body ["data", "id"]
  let a ← d.approvals.find? fun a => textAt body ["data", "effect", "approval"] = some a.approvalId ∧
    textAt body ["data", "effect", "owner"] = some a.ownerId ∧
    ∃ c ∈ d.candidates, ∃ t ∈ d.targets, d.adoptionAuthority a c t
  -- The unique key on the approval consumes it.
  require (∀ o ∈ d.operations, o.approvalId ≠ a.approvalId)
  let operations ← insert OperationRow.operationId OperationRow.Check
    { operationId := id, approvalId := a.approvalId, ownerId := a.ownerId, state := .prepared, revision := 1
      receipt := none, body } d.operations
  return { d with operations }

/-- `claim-target.sql`. -/
def claimTarget (d : Db) (id : String) (revision : Nat) (body : String) : Option Db := do
  let o ← d.operations.find? fun o => d.readyOperation o ∧ o.operationId = id ∧ o.revision = revision ∧ o.body = body
  let repositoryId ← textAt o.body ["data", "effect", "repository"]
  let reference ← textAt o.body ["data", "effect", "reference"]
  require (∀ c ∈ d.claims, c.operationId ≠ o.operationId)
  let claims ← insert ClaimRow.place (fun _ => True) { repositoryId, reference, operationId := o.operationId } d.claims
  return { d with claims }

/-- `dispatch.sql`. -/
def dispatchOperation (d : Db) (id : String) (revision : Nat) (body : String) : Option Db := do
  let operations ← updateOne (fun o => o.operationId = id ∧ o.revision = revision ∧ o.body = body ∧
      o.state = .prepared ∧ d.readyOperation o ∧ ∃ c ∈ d.claims, c.operationId = o.operationId)
    (fun o => { o with state := .dispatched, revision := o.revision + 1 }) operationTransition d.operations
  return { d with operations }

/-- The batch of `dispatch`. -/
def dispatch (d : Db) (id : String) (revision : Nat) (body : String) : Option Db := do
  let d ← claimTarget d id revision body
  dispatchOperation d id revision body

/-- `transition.sql`. -/
def transitionOperation (d : Db) (id : String) (revision : Nat) (body : String) (after : OperationState)
    (receipt : Option String) (before : OperationState) : Option Db := do
  let operations ← updateOne
    (fun o => o.operationId = id ∧ o.revision = revision ∧ o.body = body ∧ o.state = before)
    (fun o => { o with state := after, receipt, revision := o.revision + 1 }) operationTransition d.operations
  return { d with operations }

/-- `fence-target.sql`; no guard follows it. -/
def fenceTarget (d : Db) (id : String) : Db :=
  let targets := update
    (fun t => t.revision < maxStoredInteger ∧ ∃ c ∈ d.claims, c.place = t.place ∧ c.operationId = id ∧
      ∃ o ∈ d.operations, o.operationId = c.operationId ∧ o.state.terminal = true)
    (fun t => { t with revision := t.revision + 1, writable := false }) d.targets
  { d with targets }

/-- `release-target.sql`, with `work_claim_terminal`. -/
def releaseTarget (d : Db) (id : String) : Option Db := do
  require ((d.claims.filter fun c => c.operationId = id).length = 1 ∧
    ∃ o ∈ d.operations, o.operationId = id ∧ o.state.terminal = true)
  return { d with claims := d.claims.filter fun c => c.operationId ≠ id }

/-- The batch of `record_outcome`; a receipt fences the target before it releases it. -/
def recordOutcome (d : Db) (id : String) (revision : Nat) (body : String) (after : OperationState)
    (receipt : Option String) (before : OperationState) : Option Db := do
  let d ← transitionOperation d id revision body after receipt before
  if after.terminal then releaseTarget (fenceTarget d id) id else return d

/-- `cancel.sql`. -/
def cancelOperation (d : Db) (id : String) (revision : Nat) (body sessionHash : String) : Option Db := do
  let operations ← updateOne (fun o => o.operationId = id ∧ o.revision = revision ∧ o.body = body ∧
      o.state = .prepared ∧ d.sessionCurrent sessionHash o.ownerId)
    (fun o => { o with state := .cancelled, revision := o.revision + 1 }) operationTransition d.operations
  return { d with operations }

/-! ## Targets, task repositories and preparations -/

/-- A new target, or a fresh observation of one. -/
def refreshTarget (d : Db) (t : TargetRow) : Option Db :=
  match lookup TargetRow.place t.place d.targets with
  | none => return { d with targets := d.targets ++ [t] }
  | some _ => do
    let targets ← updateOne (fun u => u.place = t.place) (fun _ => t) targetRevision d.targets
    return { d with targets }

/-- A new task repository, or a change of one, with `work_task_invalidates`. -/
def refreshTask (d : Db) (t : TaskRow) : Option Db :=
  match lookup TaskRow.repositoryId t.repositoryId d.tasks with
  | none => return { d with tasks := d.tasks ++ [t] }
  | some _ => do
    let tasks ← updateOne (fun u => u.repositoryId = t.repositoryId) (fun _ => t) (taskRevision d) d.tasks
    return { d with tasks }.revokeGrants fun g => ∃ w ∈ d.requests, w.digest = g.requestDigest ∧
      textAt w.body ["data", "input", "task_repository"] = some t.repositoryId

/-- `save-preparation.sql`. -/
def savePreparation (d : Db) (p : PreparationRow) (sessionHash : String) : Option Db := do
  require (p.state = .reserved ∧ p.revision = 1 ∧ p.evidence = none ∧ p.cleanupReceipt = none ∧
    p.disclosureDigest ∈ d.around.sourceCurrent ∧ p.expiresAt > d.around.now ∧
    (∃ s ∈ d.around.sessions, d.liveSession sessionHash p.ownerId s ∧ s.epoch = p.ownerEpoch ∧
      s.expiresAt > d.around.now) ∧
    ∀ q ∈ d.preparations, q.taskRepository ≠ p.taskRepository)
  let preparations ← insert PreparationRow.operationId (fun _ => True) p d.preparations
  return { d with preparations }

/-- `transition-preparation.sql`, with `work_preparation_invalidates`. -/
def transitionPreparation (d : Db) (id : String) (revision : Nat) (body : String) (state : PreparationState)
    (evidence cleanupReceipt : Option String) : Option Db := do
  let old ← lookup PreparationRow.operationId id d.preparations
  let preparations ← updateOne (fun p => p.operationId = id ∧ p.revision = revision ∧ p.body = body)
    (fun p => { p with state, revision := p.revision + 1, evidence, cleanupReceipt })
    (fun p p' => preparationTransition p p' ∧ preparationLive d p p') d.preparations
  if old.state = .verified ∧ state ≠ .verified then
    return { d with preparations }.revokeGrants fun g => ∃ r ∈ d.requestPreparations, r.requestDigest = g.requestDigest ∧
      ∃ t ∈ d.preparedTasks, t.repositoryId = r.repositoryId ∧ t.preparationId = id
  else return { d with preparations }

/-- The batch of `materialize_prepared_task`, with `work_prepared_task_binding`; the facts of the task are those of
the preparation's disclosure. -/
def materializePreparedTask (d : Db) (id : String) (facts : TaskRow) : Option Db := do
  let p ← lookup PreparationRow.operationId id d.preparations
  require (p.state = .verified ∧ p.expiresAt > d.around.now ∧ p.disclosureDigest ∈ d.around.sourceCurrent)
  let tasks ← insert TaskRow.repositoryId (fun _ => True)
    { facts with repositoryId := p.taskRepository, ownerId := p.ownerId, revision := 1
                 disclosureDigest := p.disclosureDigest } d.tasks
  require (∀ t ∈ d.preparedTasks, t.preparationId ≠ id ∧ t.preparationDigest ≠ p.digest)
  let preparedTasks ← insert PreparedTaskRow.repositoryId (fun _ => True)
    { repositoryId := p.taskRepository, preparationId := id, preparationDigest := p.digest } d.preparedTasks
  return { d with tasks, preparedTasks }

/-! ## The system -/

/-- A batch with the values bound to it. -/
inductive Batch where
  | saveRequest (body projection sessionHash : String) (preparation : Option String)
  | saveGrant (body sessionHash : String)
  | saveRun (body : String) (actorExpires : Nat)
  | saveCandidate (body : String)
  | saveApproval (body projection sessionHash : String)
  | revokeGrant (id sessionHash : String)
  | revokeRun (id sessionHash : String)
  | revokeApproval (id sessionHash : String)
  | prepareOperation (body : String)
  | dispatch (id : String) (revision : Nat) (body : String)
  | recordOutcome (id : String) (revision : Nat) (body : String) (after : OperationState) (receipt : Option String)
      (before : OperationState)
  | cancelOperation (id : String) (revision : Nat) (body sessionHash : String)
  | refreshTarget (t : TargetRow)
  | refreshTask (t : TaskRow)
  | savePreparation (p : PreparationRow) (sessionHash : String)
  | transitionPreparation (id : String) (revision : Nat) (body : String) (state : PreparationState)
      (evidence cleanupReceipt : Option String)
  | materializePreparedTask (id : String) (facts : TaskRow)

def Batch.run (b : Batch) (d : Db) : Option Db :=
  match b with
  | saveRequest body projection sessionHash preparation => WorkStore.saveRequest d body projection sessionHash preparation
  | saveGrant body sessionHash => WorkStore.saveGrant d body sessionHash
  | saveRun body actorExpires => WorkStore.saveRun d body actorExpires
  | saveCandidate body => WorkStore.saveCandidate d body
  | saveApproval body projection sessionHash => WorkStore.saveApproval d body projection sessionHash
  | revokeGrant id sessionHash => WorkStore.revokeGrant d id sessionHash
  | revokeRun id sessionHash => WorkStore.revokeRun d id sessionHash
  | revokeApproval id sessionHash => WorkStore.revokeApproval d id sessionHash
  | prepareOperation body => WorkStore.prepareOperation d body
  | dispatch id revision body => WorkStore.dispatch d id revision body
  | recordOutcome id revision body after receipt before => WorkStore.recordOutcome d id revision body after receipt before
  | cancelOperation id revision body sessionHash => WorkStore.cancelOperation d id revision body sessionHash
  | refreshTarget t => WorkStore.refreshTarget d t
  | refreshTask t => WorkStore.refreshTask d t
  | savePreparation p sessionHash => WorkStore.savePreparation d p sessionHash
  | transitionPreparation id revision body state evidence cleanupReceipt =>
    WorkStore.transitionPreparation d id revision body state evidence cleanupReceipt
  | materializePreparedTask id facts => WorkStore.materializePreparedTask d id facts

/-- The batches that concern no operation. -/
def Batch.elsewhere : Batch → Bool
  | prepareOperation .. | dispatch .. | recordOutcome .. | cancelOperation .. => false
  | _ => true

/-- Outside the batches the clock runs, and accounts, policies, sessions and sources change in any way. -/
def store : Transactions.System Db Batch where
  run := Batch.run
  drift d d' := ∃ around : Surroundings, d' = { d with around }

end Mikaki.WorkStore
