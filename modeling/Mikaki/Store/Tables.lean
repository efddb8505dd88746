import Mikaki.Lib.Rows
import Mikaki.Work.Preparation
import Mikaki.Work.AdoptionRecords

/-!
# The tables and views of the managed-work database

A record is stored as its JSON text next to the columns that the statements
select by. What the rest of the system keeps in the same database (accounts,
policies, sessions, the sources a disclosure was made from) is read here only.
A constraint or a trigger that can only refuse a statement more often, such as
a capacity, is not modelled: a statement may always be refused.
-/

namespace Mikaki.WorkStore

open Rows

/-! ## `json_extract` -/

def member (key : String) : Json.Value → Option Json.Value
  | .obj ms => ms.lookup key
  | _ => none

def extract (body : String) (path : List String) : Option Json.Value :=
  (Json.parse body).bind fun v => path.foldlM (fun v key => member key v) v

def textAt (body : String) (path : List String) : Option String := (extract body path).bind Json.Value.asStr

def numberAt (body : String) (path : List String) : Option Nat := (extract body path).bind (Json.Value.asNum (2 ^ 63))

/-- What the `CHECK` of every record column asks of the text itself. -/
def recordText (kind : String) (body : String) : Prop :=
  1 ≤ body.length ∧ body.length ≤ 32768 ∧ numberAt body ["version"] = some 1 ∧ textAt body ["kind"] = some kind

instance (kind body : String) : Decidable (recordText kind body) := inferInstanceAs (Decidable (_ ∧ _))

/-! ## What is only read -/

/-- `account_security`. -/
structure AccountRow where
  accountId : String
  epoch : Nat
  active : Bool
  deriving DecidableEq

/-- The row of `runtime_policy_active`. -/
structure PolicyRow where
  generation : Nat
  projectionRevision : String
  deriving DecidableEq

/-- A row of `sso_context` joined with its session and its credential. -/
structure SessionRow where
  secretHash : String
  accountId : String
  epoch : Nat
  credentialActive : Bool
  revoked : Bool
  expiresAt : Nat
  deriving DecidableEq

structure Surroundings where
  now : Nat
  accounts : List AccountRow
  policy : Option PolicyRow
  sessions : List SessionRow
  /-- `work_disclosure_source_current`. -/
  sourceCurrent : List String

/-! ## Rows -/

structure TaskRow where
  repositoryId : String
  ownerId : String
  revision : Nat
  disclosureDigest : String
  recipient : String
  workload : String
  codeRepository : String
  baseCommit : String
  deriving DecidableEq

structure TargetRow where
  repositoryId : String
  reference : String
  ownerId : String
  head : String
  revision : Nat
  writable : Bool
  deriving DecidableEq

structure RequestRow where
  digest : String
  requestId : String
  ownerId : String
  revision : Nat
  ownerEpoch : Nat
  policyGeneration : Nat
  policyProjection : String
  expiresAt : Nat
  body : String
  deriving DecidableEq

structure HeadRow where
  ownerId : String
  requestId : String
  revision : Nat
  digest : String
  deriving DecidableEq

structure GrantRow where
  grantId : String
  requestDigest : String
  taskRevision : Nat
  expiresAt : Nat
  revision : Nat
  revoked : Bool
  body : String
  deriving DecidableEq

structure RunRow where
  runId : String
  grantId : String
  requestDigest : String
  expiresAt : Nat
  revision : Nat
  revoked : Bool
  body : String
  deriving DecidableEq

structure CandidateRow where
  digest : String
  requestDigest : String
  ownerId : String
  grantId : String
  runId : String
  body : String
  deriving DecidableEq

structure ApprovalRow where
  approvalId : String
  candidateDigest : String
  ownerId : String
  ownerEpoch : Nat
  policyGeneration : Nat
  policyProjection : String
  grantId : String
  grantRevision : Nat
  runId : String
  runRevision : Nat
  targetRevision : Nat
  expiresAt : Nat
  revision : Nat
  revoked : Bool
  body : String
  deriving DecidableEq

structure OperationRow where
  operationId : String
  approvalId : String
  ownerId : String
  state : OperationState
  revision : Nat
  receipt : Option String
  body : String
  deriving DecidableEq

structure ClaimRow where
  repositoryId : String
  reference : String
  operationId : String
  deriving DecidableEq

structure PreparationRow where
  operationId : String
  digest : String
  disclosureDigest : String
  ownerId : String
  ownerEpoch : Nat
  policyGeneration : Nat
  policyProjection : String
  expiresAt : Nat
  taskRepository : String
  state : PreparationState
  revision : Nat
  evidence : Option String
  cleanupReceipt : Option String
  body : String
  deriving DecidableEq

structure PreparedTaskRow where
  repositoryId : String
  preparationId : String
  preparationDigest : String
  deriving DecidableEq

structure RequestPreparationRow where
  requestDigest : String
  repositoryId : String
  deriving DecidableEq

structure Db where
  around : Surroundings
  tasks : List TaskRow
  targets : List TargetRow
  requests : List RequestRow
  heads : List HeadRow
  grants : List GrantRow
  runs : List RunRow
  candidates : List CandidateRow
  approvals : List ApprovalRow
  operations : List OperationRow
  claims : List ClaimRow
  preparations : List PreparationRow
  preparedTasks : List PreparedTaskRow
  requestPreparations : List RequestPreparationRow

def TargetRow.place (t : TargetRow) : String × String := (t.repositoryId, t.reference)
def ClaimRow.place (c : ClaimRow) : String × String := (c.repositoryId, c.reference)
def HeadRow.place (h : HeadRow) : String × String := (h.ownerId, h.requestId)

/-! ## `CHECK` constraints -/

def RequestRow.Check (r : RequestRow) : Prop :=
  recordText "request" r.body ∧ textAt r.body ["data", "digest"] = some r.digest ∧
    textAt r.body ["data", "owner"] = some r.ownerId ∧
    textAt r.body ["data", "input", "request_id"] = some r.requestId ∧
    numberAt r.body ["data", "input", "revision"] = some r.revision ∧
    numberAt r.body ["data", "owner_epoch"] = some r.ownerEpoch ∧
    numberAt r.body ["data", "policy_revision"] = some r.policyGeneration ∧
    numberAt r.body ["data", "input", "deadline"] = some r.expiresAt

/-- The two states of what can be revoked. -/
def standing (revision : Nat) (revoked : Bool) : Prop :=
  (revision = 1 ∧ revoked = false) ∨ (revision = 2 ∧ revoked = true)

def GrantRow.Check (r : GrantRow) : Prop :=
  recordText "grant" r.body ∧ textAt r.body ["data", "id"] = some r.grantId ∧
    textAt r.body ["data", "request"] = some r.requestDigest ∧
    numberAt r.body ["data", "task_revision"] = some r.taskRevision ∧
    numberAt r.body ["data", "expires_at"] = some r.expiresAt ∧ standing r.revision r.revoked

def RunRow.Check (r : RunRow) : Prop :=
  recordText "run" r.body ∧ textAt r.body ["data", "id"] = some r.runId ∧
    textAt r.body ["data", "grant"] = some r.grantId ∧ textAt r.body ["data", "request"] = some r.requestDigest ∧
    numberAt r.body ["data", "expires_at"] = some r.expiresAt ∧ standing r.revision r.revoked

def CandidateRow.Check (r : CandidateRow) : Prop :=
  recordText "candidate" r.body ∧ textAt r.body ["data", "digest"] = some r.digest ∧
    textAt r.body ["data", "owner"] = some r.ownerId ∧ textAt r.body ["data", "request"] = some r.requestDigest ∧
    textAt r.body ["data", "producer", "grant"] = some r.grantId ∧
    textAt r.body ["data", "producer", "run"] = some r.runId

def ApprovalRow.Check (r : ApprovalRow) : Prop :=
  recordText "code_approval" r.body ∧ textAt r.body ["data", "id"] = some r.approvalId ∧
    textAt r.body ["data", "candidate"] = some r.candidateDigest ∧ textAt r.body ["data", "owner"] = some r.ownerId ∧
    numberAt r.body ["data", "owner_epoch"] = some r.ownerEpoch ∧
    numberAt r.body ["data", "policy_revision"] = some r.policyGeneration ∧
    textAt r.body ["data", "producer", "grant"] = some r.grantId ∧
    numberAt r.body ["data", "producer", "grant_revision"] = some r.grantRevision ∧
    textAt r.body ["data", "producer", "run"] = some r.runId ∧
    numberAt r.body ["data", "producer", "run_revision"] = some r.runRevision ∧
    numberAt r.body ["data", "target_revision"] = some r.targetRevision ∧
    numberAt r.body ["data", "expires_at"] = some r.expiresAt ∧ standing r.revision r.revoked

def OperationRow.Check (r : OperationRow) : Prop :=
  recordText "code_operation" r.body ∧ textAt r.body ["data", "id"] = some r.operationId ∧
    textAt r.body ["data", "effect", "approval"] = some r.approvalId ∧
    textAt r.body ["data", "effect", "owner"] = some r.ownerId ∧ r.state.terminal = r.receipt.isSome

instance (revision : Nat) (revoked : Bool) : Decidable (standing revision revoked) := inferInstanceAs (Decidable (_ ∨ _))
instance : DecidablePred RequestRow.Check := fun _ => inferInstanceAs (Decidable (_ ∧ _))
instance : DecidablePred GrantRow.Check := fun _ => inferInstanceAs (Decidable (_ ∧ _))
instance : DecidablePred RunRow.Check := fun _ => inferInstanceAs (Decidable (_ ∧ _))
instance : DecidablePred CandidateRow.Check := fun _ => inferInstanceAs (Decidable (_ ∧ _))
instance : DecidablePred ApprovalRow.Check := fun _ => inferInstanceAs (Decidable (_ ∧ _))
instance : DecidablePred OperationRow.Check := fun _ => inferInstanceAs (Decidable (_ ∧ _))

/-! ## Views -/

namespace Db

def ownerCurrent (d : Db) (owner : String) (epoch : Nat) : Prop :=
  ∃ a ∈ d.around.accounts, a.accountId = owner ∧ a.active = true ∧ a.epoch = epoch

def policyCurrent (d : Db) (generation : Nat) (projection : String) : Prop :=
  d.around.policy = some { generation, projectionRevision := projection }

/-- The session of the secret, unrevoked, with a live credential and a current account. -/
def liveSession (d : Db) (sessionHash owner : String) (s : SessionRow) : Prop :=
  s.secretHash = sessionHash ∧ s.accountId = owner ∧ s.credentialActive = true ∧ s.revoked = false ∧
    d.ownerCurrent owner s.epoch

/-- Such a session that has not expired. -/
def sessionCurrent (d : Db) (sessionHash owner : String) : Prop :=
  ∃ s ∈ d.around.sessions, d.liveSession sessionHash owner s ∧ s.expiresAt > d.around.now

/-- `work_prepared_task_current`. -/
def preparedTaskCurrent (d : Db) (repository : String) : Prop :=
  ∃ t ∈ d.preparedTasks, t.repositoryId = repository ∧
    (∃ k ∈ d.tasks, k.repositoryId = repository ∧ k.revision = 1) ∧
    ∃ p ∈ d.preparations, p.operationId = t.preparationId ∧ p.disclosureDigest ∈ d.around.sourceCurrent ∧
      p.state = .verified ∧ p.expiresAt > d.around.now

/-- The task repository that a request names, with the request's own facts. -/
def requestTask (w : RequestRow) (t : TaskRow) : Prop :=
  textAt w.body ["data", "input", "task_repository"] = some t.repositoryId ∧ t.ownerId = w.ownerId ∧
    textAt w.body ["data", "input", "disclosure_digest"] = some t.disclosureDigest ∧
    textAt w.body ["data", "input", "recipient"] = some t.recipient ∧
    textAt w.body ["data", "input", "workload"] = some t.workload ∧
    textAt w.body ["data", "input", "code_repository"] = some t.codeRepository ∧
    textAt w.body ["data", "input", "base_commit"] = some t.baseCommit

/-- `work_live_request`, of a row of `work_request`. -/
def liveRequest (d : Db) (w : RequestRow) : Prop :=
  (∃ h ∈ d.heads, h.digest = w.digest) ∧ d.ownerCurrent w.ownerId w.ownerEpoch ∧
    d.policyCurrent w.policyGeneration w.policyProjection ∧ w.expiresAt > d.around.now ∧
    ∃ t ∈ d.tasks, requestTask w t ∧
      ((∀ k ∈ d.preparedTasks, k.repositoryId ≠ t.repositoryId) ∨
        ∃ r ∈ d.requestPreparations, r.requestDigest = w.digest ∧ r.repositoryId = t.repositoryId ∧
          d.preparedTaskCurrent r.repositoryId)

/-- `work_live_grant`, of a row of `work_grant`. -/
def liveGrant (d : Db) (g : GrantRow) : Prop :=
  g.revoked = false ∧ g.expiresAt > d.around.now ∧
    ∃ w ∈ d.requests, d.liveRequest w ∧ w.digest = g.requestDigest ∧
      ∃ t ∈ d.tasks, textAt w.body ["data", "input", "task_repository"] = some t.repositoryId ∧
        t.revision = g.taskRevision

/-- `work_live_run`, of a row of `work_run`. -/
def liveRun (d : Db) (r : RunRow) : Prop :=
  r.revoked = false ∧ r.expiresAt > d.around.now ∧
    ∃ g ∈ d.grants, d.liveGrant g ∧ g.grantId = r.grantId ∧ g.requestDigest = r.requestDigest

/-- `work_adoption_authority`: an approval with the candidate and the target that it is for. -/
def adoptionAuthority (d : Db) (a : ApprovalRow) (c : CandidateRow) (t : TargetRow) : Prop :=
  c.digest = a.candidateDigest ∧ c.ownerId = a.ownerId ∧
    (∃ g ∈ d.grants, g.grantId = a.grantId ∧ g.grantId = c.grantId ∧ g.revision = a.grantRevision) ∧
    (∃ r ∈ d.runs, r.runId = a.runId ∧ r.runId = c.runId ∧ r.grantId = a.grantId ∧ r.revision = a.runRevision) ∧
    d.ownerCurrent a.ownerId a.ownerEpoch ∧ d.policyCurrent a.policyGeneration a.policyProjection ∧
    textAt c.body ["data", "adoption_repository"] = some t.repositoryId ∧
    textAt c.body ["data", "adoption_ref"] = some t.reference ∧ t.ownerId = a.ownerId ∧ t.writable = true ∧
    textAt c.body ["data", "expected_head"] = some t.head ∧ t.revision = a.targetRevision ∧
    t.revision < maxStoredInteger ∧ a.revoked = false ∧ a.expiresAt > d.around.now

/-- What the effect of an operation and its approval, candidate and target have in common. -/
def sameEffect (body : String) (a : ApprovalRow) (c : CandidateRow) (t : TargetRow) : Prop :=
  numberAt body ["data", "effect", "approval_revision"] = some a.revision ∧
    textAt body ["data", "effect", "owner"] = some a.ownerId ∧
    numberAt body ["data", "effect", "owner_epoch"] = some a.ownerEpoch ∧
    numberAt body ["data", "effect", "policy_revision"] = some a.policyGeneration ∧
    textAt body ["data", "effect", "producer", "grant"] = some a.grantId ∧
    numberAt body ["data", "effect", "producer", "grant_revision"] = some a.grantRevision ∧
    textAt body ["data", "effect", "producer", "run"] = some a.runId ∧
    numberAt body ["data", "effect", "producer", "run_revision"] = some a.runRevision ∧
    textAt body ["data", "effect", "candidate"] = some a.candidateDigest ∧
    numberAt body ["data", "effect", "target_revision"] = some a.targetRevision ∧
    textAt body ["data", "effect", "repository"] = some t.repositoryId ∧
    textAt body ["data", "effect", "reference"] = some t.reference ∧
    textAt body ["data", "effect", "expected_head"] = textAt c.body ["data", "expected_head"] ∧
    textAt body ["data", "effect", "commit"] = textAt c.body ["data", "commit"] ∧
    (textAt c.body ["data", "commit"]).isSome

/-- `work_ready_operation`, of a row of `work_code_operation`. -/
def readyOperation (d : Db) (o : OperationRow) : Prop :=
  o.state = .prepared ∧ ∃ a ∈ d.approvals, a.approvalId = o.approvalId ∧
    ∃ c ∈ d.candidates, ∃ t ∈ d.targets, d.adoptionAuthority a c t ∧ sameEffect o.body a c t

section
variable (d : Db)

instance (owner : String) (epoch : Nat) : Decidable (d.ownerCurrent owner epoch) := List.decidableBEx _ _
instance (generation : Nat) (projection : String) : Decidable (d.policyCurrent generation projection) :=
  inferInstanceAs (Decidable (_ = _))
instance (sessionHash owner : String) (s : SessionRow) : Decidable (d.liveSession sessionHash owner s) :=
  inferInstanceAs (Decidable (_ ∧ _))
instance (sessionHash owner : String) : Decidable (d.sessionCurrent sessionHash owner) := List.decidableBEx _ _
instance (repository : String) : Decidable (d.preparedTaskCurrent repository) := List.decidableBEx _ _
instance (w : RequestRow) (t : TaskRow) : Decidable (requestTask w t) := inferInstanceAs (Decidable (_ ∧ _))
instance : DecidablePred d.liveRequest := fun _ => inferInstanceAs (Decidable (_ ∧ _))
instance : DecidablePred d.liveGrant := fun _ => inferInstanceAs (Decidable (_ ∧ _))
instance : DecidablePred d.liveRun := fun _ => inferInstanceAs (Decidable (_ ∧ _))
instance (a : ApprovalRow) (c : CandidateRow) (t : TargetRow) : Decidable (d.adoptionAuthority a c t) :=
  inferInstanceAs (Decidable (_ ∧ _))
instance (body : String) (a : ApprovalRow) (c : CandidateRow) (t : TargetRow) : Decidable (sameEffect body a c t) :=
  inferInstanceAs (Decidable (_ ∧ _))
instance : DecidablePred d.readyOperation := fun _ => inferInstanceAs (Decidable (_ ∧ _))

end

end Db

end Mikaki.WorkStore
