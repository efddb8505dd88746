import Mikaki.Work.Repository

/-!
# Source preparations

The identity of a preparation is fixed before any external effect: its plan,
the plan's digest and the names of its two repositories. Its state moves
forward only, and only a verified preparation can stand for a task repository.
-/

namespace Mikaki

open Checks Records

/-! ## Plans -/

structure Binding where
  owner : Id
  ownerEpoch : Nat
  policyRevision : Nat
  policyProjection : Digest
  disclosure : Digest
  expiresAt : Nat
  reservedBytes : Nat
  sourceIds : List String
  snapshotRepository : Id
  deriving DecidableEq

structure Plan where
  operationId : Id
  binding : Binding
  taskRepository : Id
  taskNamespace : String
  snapshotNamespace : String
  taskName : String
  snapshotName : String
  deriving DecidableEq

def ResolvedDisclosure.preparationBinding (self : ResolvedDisclosure) : Except Denied Binding := do
  self.requireRegisteredSources
  match self.data.policyProjection with
  | none => .error .bindingMismatch
  | some policyProjection =>
    return { owner := self.data.owner, ownerEpoch := self.data.ownerEpoch, policyRevision := self.data.policyRevision
             policyProjection, disclosure := self.digest, expiresAt := self.data.expiresAt
             reservedBytes := self.data.code.objectBytes + self.data.selectedBytes
             sourceIds := self.data.sourceIds.map (·.text), snapshotRepository := self.data.snapshot.repository }

def namespaceName (value : String) : Except Denied Unit :=
  denyIf (value.utf8ByteSize = 0 ∨ value.utf8ByteSize > 63 ∨
    (Text.bytes value).all (fun b => Text.isLower b || Text.isDigit b || b == 45) = false ∨
    value.toList.head? = some '-' ∨ value.toList.getLast? = some '-') .invalidInput

/-- Both names from the first half of a digest of the operation. -/
def names [Hashes] (id : Id) : String × String :=
  let digest := (sha256 (Hash.new "mikaki.work-preparation-name.v1" ++ Hash.text id.text)).toHex
  let half := String.ofList (digest.toList.take 32)
  ("wk-" ++ half ++ "-code", "wk-" ++ half ++ "-snapshot")

namespace Plan

def validate [Hashes] (self : Plan) : Except Denied Unit := do
  namespaceName self.taskNamespace
  namespaceName self.snapshotNamespace
  let b := self.binding
  storedNumber b.ownerEpoch true
  storedNumber b.policyRevision false
  storedNumber b.expiresAt false
  denyIf (b.reservedBytes > 67239936 ∨ b.sourceIds = [] ∨ b.sourceIds.length > 5 ∨
    b.sourceIds.any (fun id => !Id.shape id) = true ∨ ¬b.sourceIds.Nodup ∨ self.taskRepository = b.snapshotRepository ∨
    self.taskRepository.text ∈ b.sourceIds ∨ b.snapshotRepository.text ∈ b.sourceIds ∨
    names self.operationId ≠ (self.taskName, self.snapshotName)) .bindingMismatch

/-- What the plan digest commits to. -/
def preimage (self : Plan) : List UInt8 :=
  Hash.new "mikaki.work-preparation.v1" ++ Hash.text self.operationId.text ++ Hash.text self.binding.owner.text ++
    Hash.number self.binding.ownerEpoch ++ Hash.number self.binding.policyRevision ++
    Hash.digest self.binding.policyProjection ++ Hash.digest self.binding.disclosure ++
    Hash.number self.binding.expiresAt ++ Hash.number self.binding.reservedBytes ++
    Framing.countedList Hash.text self.binding.sourceIds ++ Hash.text self.binding.snapshotRepository.text ++
    Hash.text self.taskRepository.text ++ Hash.text self.taskNamespace ++ Hash.text self.snapshotNamespace ++
    Hash.text self.taskName ++ Hash.text self.snapshotName

def digest [Hashes] (self : Plan) : Digest := sha256 self.preimage

end Plan

/-! ## Preparations and their evidence -/

inductive PreparationState where
  | reserved
  | dispatched
  | verified
  | cleanupPending
  | cleaned
  deriving DecidableEq, Repr

structure Preparation where
  plan : Plan
  digest : Digest
  state : PreparationState
  deriving DecidableEq

/-- An independent verification; the two remote repositories are distinct. -/
structure VerifiedPreparation where
  preparation : Digest
  taskRepoId : Id
  snapshotRepoId : Id
  payloadReceipt : Digest
  credentialReceipt : Digest
  distinct : taskRepoId ≠ snapshotRepoId

def VerifiedPreparation.fromIndependentlyVerified (preparation : Preparation) (taskRepoId snapshotRepoId : String)
    (payloadReceipt credentialReceipt : Digest) : Except Denied VerifiedPreparation := do
  let taskRepoId ← Id.parse taskRepoId
  let snapshotRepoId ← Id.parse snapshotRepoId
  if distinct : taskRepoId ≠ snapshotRepoId then
    return { preparation := preparation.digest, taskRepoId, snapshotRepoId, payloadReceipt, credentialReceipt, distinct }
  else .error .bindingMismatch

namespace Preparation

def fromRegisteredDisclosure [Hashes] (disclosure : ResolvedDisclosure)
    (operationId taskRepository taskNamespace snapshotNamespace : String) : Except Denied Preparation := do
  let id ← Id.parse operationId
  let (taskName, snapshotName) := names id
  let binding ← disclosure.preparationBinding
  let taskRepository ← Id.parse taskRepository
  let plan : Plan :=
    { operationId := id, binding, taskRepository, taskNamespace, snapshotNamespace, taskName, snapshotName }
  plan.validate
  return { plan, digest := plan.digest, state := .reserved }

def taskAuthority (self : Preparation) (evidence : VerifiedPreparation) (disclosure : ResolvedDisclosure)
    (revision : Nat) (sourcesCurrent : Bool) : Except Denied TaskRepository := do
  denyIf (evidence.preparation ≠ self.digest) .bindingMismatch
  let binding ← disclosure.preparationBinding
  denyIf (binding ≠ self.plan.binding) .bindingMismatch
  let task ← TaskRepository.fromAuthority self.plan.binding.owner.text self.plan.taskRepository.text revision
    self.plan.binding.disclosure
  return { task with
    available := self.state == .verified && sourcesCurrent && revision == 1
    preparedDisclosure := some disclosure }

def dispatch (self : Preparation) (environment : Environment) : Except Denied Unit × Preparation :=
  if self.state ≠ .reserved then (.error .invalidTransition, self)
  else match environment.checkOwner self.plan.binding.owner self.plan.binding.ownerEpoch with
    | .error e => (.error e, self)
    | .ok () =>
      if environment.policyRevision ≠ self.plan.binding.policyRevision then (.error .stalePolicy, self)
      else if environment.now ≥ self.plan.binding.expiresAt then (.error .expired, self)
      else (.ok (), { self with state := .dispatched })

def verify (self : Preparation) (evidence : VerifiedPreparation) : Except Denied Unit × Preparation :=
  if evidence.preparation ≠ self.digest then (.error .bindingMismatch, self)
  else match self.state with
    | .dispatched | .verified => (.ok (), { self with state := .verified })
    | _ => (.error .invalidTransition, self)

def requireCleanup (self : Preparation) : Preparation :=
  { self with
    state := match self.state with
      | .reserved => .cleaned
      | .cleaned => .cleaned
      | _ => .cleanupPending }

def confirmCleaned (self : Preparation) : Except Denied Unit × Preparation :=
  match self.state with
  | .cleanupPending | .cleaned => (.ok (), { self with state := .cleaned })
  | _ => (.error .invalidTransition, self)

end Preparation

/-! ## Stored records -/

namespace Binding

def fieldNames : List String :=
  ["owner", "owner_epoch", "policy_revision", "policy_projection", "disclosure", "expires_at", "reserved_bytes",
    "source_ids", "snapshot_repository"]

def toJson (self : Binding) : Json.Value :=
  .obj [("owner", .str self.owner.text), ("owner_epoch", .num self.ownerEpoch),
    ("policy_revision", .num self.policyRevision), ("policy_projection", .str self.policyProjection.toHex),
    ("disclosure", .str self.disclosure.toHex), ("expires_at", .num self.expiresAt),
    ("reserved_bytes", .num self.reservedBytes), ("source_ids", .arr (self.sourceIds.map .str)),
    ("snapshot_repository", .str self.snapshotRepository.text)]

def read (v : Json.Value) : Option Binding := do
  let f ← Json.fields fieldNames v
  return {
    owner := ← field f "owner" Records.id
    ownerEpoch := ← field f "owner_epoch" u64
    policyRevision := ← field f "policy_revision" u64
    policyProjection := ← field f "policy_projection" Records.digest
    disclosure := ← field f "disclosure" Records.digest
    expiresAt := ← field f "expires_at" u64
    reservedBytes := ← field f "reserved_bytes" u64
    sourceIds := ← field f "source_ids" strings
    snapshotRepository := ← field f "snapshot_repository" Records.id }

end Binding

namespace Plan

def fieldNames : List String :=
  ["operation_id", "binding", "task_repository", "task_namespace", "snapshot_namespace", "task_name", "snapshot_name"]

def toJson (self : Plan) : Json.Value :=
  .obj [("operation_id", .str self.operationId.text), ("binding", self.binding.toJson),
    ("task_repository", .str self.taskRepository.text), ("task_namespace", .str self.taskNamespace),
    ("snapshot_namespace", .str self.snapshotNamespace), ("task_name", .str self.taskName),
    ("snapshot_name", .str self.snapshotName)]

def read (v : Json.Value) : Option Plan := do
  let f ← Json.fields fieldNames v
  return {
    operationId := ← field f "operation_id" Records.id
    binding := ← field f "binding" Binding.read
    taskRepository := ← field f "task_repository" Records.id
    taskNamespace := ← field f "task_namespace" string
    snapshotNamespace := ← field f "snapshot_namespace" string
    taskName := ← field f "task_name" string
    snapshotName := ← field f "snapshot_name" string }

end Plan

namespace Preparation

def toJson (self : Preparation) : Json.Value :=
  .obj [("plan", self.plan.toJson), ("digest", .str self.digest.toHex)]

/-- `Stored`. -/
def read (v : Json.Value) : Option (Plan × Digest) := do
  let f ← Json.fields ["plan", "digest"] v
  return (← field f "plan" Plan.read, ← field f "digest" Records.digest)

def authorityRecord (self : Preparation) : Except Denied String := encode "preparation" self.toJson

def restoreAuthorityRecord [Hashes] (text : String) (state : PreparationState) : Except Denied Preparation := do
  let (plan, digest) ← decode "preparation" read text
  plan.validate
  denyIf (digest ≠ plan.digest) .reviewMismatch
  return { plan, digest, state }

end Preparation

end Mikaki
