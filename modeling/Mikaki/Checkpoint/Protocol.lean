import Mikaki.Lib.Checks

/-!
# The independent checkpoint: plans, records and their validators

The closed metadata that the checkpoint object keeps for each external effect.
A text that fails a pattern stands for every value that is not such a text, a
number above the largest safe integer for every value that is not such a
number, and a record that fails its validator for every value of another
shape. Fields with one admitted value (`format_version`, `effect`, a status)
are not kept.
-/

namespace Mikaki.WorkCheckpoint

open Checks

/-- The errors that the object throws. -/
inductive Fault where
  | checkpointInvalid
  | checkpointUninitialized
  | checkpointAlreadyInitialized
  | checkpointBlocked
  | checkpointPending
  | checkpointMismatch
  | checkpointDowngrade
  | effectInvalid
  | effectBlocked
  | effectConflict
  | effectInitialNotClosed
  | effectCapacity
  | gitInvalid
  | gitBlocked
  | gitConflict
  | gitUploadNotClosed
  | preparationInvalid
  | preparationIncomplete
  /-- A statement of the object's own store failed on a unique key. -/
  | uniqueConstraint
  deriving DecidableEq, Repr

def maxSafeInteger : Nat := 9007199254740991

/-- `Number.isSafeInteger(v) && v >= 0`. -/
def integer (v : Nat) : Bool := v ≤ maxSafeInteger

/-! ## Patterns -/

def lowerHex (c : Char) : Bool := c.isDigit || ('a' ≤ c && c ≤ 'f')

/-- `/^[a-f0-9]{n}$/`. -/
def hexOf (n : Nat) (v : List Char) : Bool := v.length == n && v.all lowerHex

def hex (v : String) : Bool := hexOf 64 v.toList

/-- `opaque`: `/^[A-Za-z0-9_-]{43}$/`. -/
def opaqueId (v : String) : Bool := v.toList.length == 43 && v.toList.all fun c => c.isAlphanum || c == '_' || c == '-'

/-- `/^[A-Za-z0-9_.:-]{1,128}$/`. -/
def resource (v : String) : Bool :=
  1 ≤ v.toList.length && v.toList.length ≤ 128 &&
    v.toList.all fun c => c.isAlphanum || c == '_' || c == '.' || c == ':' || c == '-'

/-- `/^[a-z0-9-]{1,63}$/`. -/
def namespaceName (v : String) : Bool :=
  1 ≤ v.toList.length && v.toList.length ≤ 63 && v.toList.all fun c => c.isLower || c.isDigit || c == '-'

inductive Role where
  | task
  | snapshot
  deriving DecidableEq, Repr

def Role.suffix : Role → List Char
  | .task => "-code".toList
  | .snapshot => "-snapshot".toList

/-- `/^wk-[a-f0-9]{32}-(code|snapshot)$/` with the role's own suffix. -/
def repositoryName (v : String) (role : Role) : Bool :=
  v.toList.take 3 == "wk-".toList && hexOf 32 ((v.toList.drop 3).take 32) && v.toList.drop 35 == role.suffix

/-! ## Checkpoints and permits -/

structure Checkpoint where
  authority : String
  epoch : String
  sequence : Nat
  tip : String
  deriving DecidableEq, Repr

structure Permit where
  operation : String
  previous : Checkpoint
  next : Checkpoint
  deriving DecidableEq, Repr

def Checkpoint.valid (v : Checkpoint) : Bool := resource v.authority && hex v.epoch && integer v.sequence && hex v.tip

/-- `checkpoint(v)`. -/
def Checkpoint.check (v : Checkpoint) : Except Fault Unit := denyIf (v.valid = false) .checkpointInvalid

/-- `permit(v)`. -/
def Permit.check (v : Permit) : Except Fault Unit := do
  denyIf (resource v.operation = false) .checkpointInvalid
  v.previous.check
  v.next.check
  denyIf (v.next.authority ≠ v.previous.authority ∨ v.next.epoch ≠ v.previous.epoch ∨
    v.next.sequence ≠ v.previous.sequence + 1 ∨ v.next.tip = v.previous.tip) .checkpointInvalid

/-! ## Initial repositories -/

structure InitialPlan where
  attemptId : String
  digest : String
  nameSpace : String
  name : String
  role : Role
  deadline : Nat
  checkpoint : Checkpoint
  artifactsAccount : Option String
  deriving DecidableEq, Repr

def InitialPlan.valid (v : InitialPlan) : Bool :=
  (v.artifactsAccount.all fun a => hexOf 32 a.toList) && opaqueId v.attemptId && hex v.digest &&
    namespaceName v.nameSpace && repositoryName v.name v.role && integer v.deadline && v.checkpoint.valid

def initialPlan (v : InitialPlan) : Except Fault Unit := denyIf (v.valid = false) .effectInvalid

structure Closure where
  repoId : String
  tokenId : String
  expiresAt : Option Nat
  receipt : String
  deriving DecidableEq, Repr

def closure (v : Closure) : Except Fault Unit :=
  denyIf ((resource v.repoId && resource v.tokenId && v.expiresAt.all integer && hex v.receipt) = false) .effectInvalid

inductive CleanupMethod where
  | revokedInventory
  | revokeAcknowledged
  deriving DecidableEq, Repr

structure RevocationInventory where
  repoId : String
  tokenId : String
  expiresAt : Nat
  receipt : String
  method : CleanupMethod
  deriving DecidableEq, Repr

def revocationInventory (v : RevocationInventory) : Except Fault Unit :=
  denyIf ((resource v.repoId && resource v.tokenId && integer v.expiresAt && hex v.receipt) = false) .effectInvalid

structure TokenObservation where
  repoId : String
  tokenId : String
  expiresAt : Nat
  deriving DecidableEq, Repr

def tokenObservation (v : TokenObservation) : Except Fault Unit :=
  denyIf ((resource v.repoId && resource v.tokenId && integer v.expiresAt) = false) .effectInvalid

/-- What was recorded, with the time it was recorded at. -/
structure Observed (α : Type) where
  value : α
  observedAt : Nat
  deriving DecidableEq, Repr

inductive EffectState where
  | outcomeUnknown
  | closed
  deriving DecidableEq, Repr

structure EffectRecord where
  plan : InitialPlan
  state : EffectState
  repoId : Option String
  closure : Option Closure
  cleanup : Option (Observed RevocationInventory)
  tokenObservation : Option (Observed TokenObservation)
  deriving DecidableEq, Repr

/-! ## Minted tokens -/

inductive Purpose where
  | upload
  | readback
  deriving DecidableEq, Repr

inductive Scope where
  | read
  | write
  deriving DecidableEq, Repr

def Purpose.scope : Purpose → Scope
  | .upload => .write
  | .readback => .read

/-- What a mint plan and the Git plan under it have in common; the checkpoint and the expiry may differ. -/
structure Intent where
  attemptId : String
  digest : String
  nameSpace : String
  name : String
  role : Role
  deadline : Nat
  artifactsAccount : Option String
  purpose : Purpose
  scope : Scope
  repoId : String
  initialAttemptId : String
  keyVersion : Nat
  keyFingerprint : String
  deriving DecidableEq, Repr

structure MintPlan extends Intent where
  checkpoint : Checkpoint
  expiresAt : Nat
  deriving DecidableEq, Repr

/-- The plan without the fields of a mint, checked as an initial plan. -/
def MintPlan.base (v : MintPlan) : InitialPlan :=
  { attemptId := v.attemptId, digest := v.digest, nameSpace := v.nameSpace, name := v.name, role := v.role
    deadline := v.deadline, checkpoint := v.checkpoint, artifactsAccount := v.artifactsAccount }

def mintPlan (v : MintPlan) : Except Fault Unit := do
  denyIf (v.scope ≠ v.purpose.scope ∨ resource v.repoId = false ∨ opaqueId v.initialAttemptId = false ∨
    v.initialAttemptId = v.attemptId ∨ integer v.deadline = false ∨ integer v.expiresAt = false ∨
    v.expiresAt > v.deadline ∨ integer v.keyVersion = false ∨ v.keyVersion < 1 ∨ hex v.keyFingerprint = false)
    .effectInvalid
  initialPlan v.base

structure MintObservation where
  repoId : String
  tokenId : String
  scope : Scope
  expiresAt : Nat
  deriving DecidableEq, Repr

def mintObservation (v : MintObservation) : Except Fault Unit :=
  denyIf (resource v.repoId = false ∨ resource v.tokenId = false ∨ integer v.expiresAt = false ∨ v.expiresAt < 1)
    .effectInvalid

structure MintCleanup extends MintObservation where
  method : CleanupMethod
  receipt : String
  deriving DecidableEq, Repr

def mintCleanup (v : MintCleanup) : Except Fault Unit := do
  denyIf (hex v.receipt = false) .effectInvalid
  mintObservation v.toMintObservation

/-- The bearer was refused at the fixed Git endpoint. -/
structure MintRefusal extends MintObservation where
  keyVersion : Nat
  receipt : String
  deriving DecidableEq, Repr

def mintRefusal (v : MintRefusal) : Except Fault Unit := do
  denyIf (integer v.keyVersion = false ∨ v.keyVersion < 1 ∨ hex v.receipt = false) .effectInvalid
  mintObservation v.toMintObservation

/-! ## Git transfers -/

inductive Branch where
  | work
  | snapshot
  deriving DecidableEq, Repr

def Role.branch : Role → Branch
  | .task => .work
  | .snapshot => .snapshot

structure GitPlan extends Intent where
  checkpoint : Checkpoint
  preparationDigest : String
  disclosureDigest : String
  commit : String
  tree : String
  branch : Branch
  observation : MintObservation
  deriving DecidableEq, Repr

def gitPlan (v : GitPlan) : Except Fault Unit := do
  denyIf (hex v.preparationDigest = false ∨ hex v.disclosureDigest = false ∨ hexOf 40 v.commit.toList = false ∨
    hexOf 40 v.tree.toList = false ∨ v.branch ≠ v.role.branch) .gitInvalid
  mintObservation v.observation
  mintPlan { toIntent := v.toIntent, checkpoint := v.checkpoint, expiresAt := v.observation.expiresAt }
  denyIf (v.observation.repoId ≠ v.repoId ∨ v.observation.scope ≠ v.scope ∨ v.observation.expiresAt > v.deadline)
    .gitInvalid

inductive GitMethod where
  | pushAccepted
  | readbackVerified
  deriving DecidableEq, Repr

def Purpose.method : Purpose → GitMethod
  | .upload => .pushAccepted
  | .readback => .readbackVerified

structure GitResult where
  method : GitMethod
  commit : String
  tree : String
  branch : Branch
  commits : Nat
  objects : Nat
  objectBytes : Nat
  inventorySha256 : String
  receipt : String
  deriving DecidableEq, Repr

def gitResult (v : GitResult) (p : GitPlan) : Except Fault Unit :=
  denyIf (v.method ≠ p.purpose.method ∨ v.commit ≠ p.commit ∨ v.tree ≠ p.tree ∨ v.branch ≠ p.branch ∨
    integer v.commits = false ∨ v.commits < 1 ∨ v.commits > 4096 ∨ (p.role = .snapshot ∧ v.commits ≠ 1) ∨
    integer v.objects = false ∨ v.objects < v.commits ∨ v.objects > 65536 ∨ integer v.objectBytes = false ∨
    v.objectBytes > 67108864 ∨ hex v.inventorySha256 = false ∨ hex v.receipt = false) .gitInvalid

inductive GitState where
  | admitted
  | dispatching
  | outcomeUnknown
  | completed
  deriving DecidableEq, Repr

structure GitRecord where
  plan : GitPlan
  state : GitState
  result : Option GitResult
  deriving DecidableEq, Repr

inductive MintState where
  | outcomeUnknown
  | custodied
  | closed
  deriving DecidableEq, Repr

structure MintRecord where
  plan : MintPlan
  state : MintState
  observation : Option MintObservation
  revokeAcknowledged : Bool
  cleanupRequested : Bool
  receipt : Option String
  cleanup : Option (Observed MintCleanup)
  refusal : Option (Observed MintRefusal)
  git : Option GitRecord
  deriving DecidableEq, Repr

def EffectRecord.attempt (r : EffectRecord) : String := r.plan.attemptId

def MintRecord.attempt (r : MintRecord) : String := r.plan.attemptId

/-- The permanent slot of a mint: `JSON.stringify([namespace, name, purpose])`. -/
def MintRecord.slot (r : MintRecord) : String × String × Purpose := (r.plan.nameSpace, r.plan.name, r.plan.purpose)

end Mikaki.WorkCheckpoint
