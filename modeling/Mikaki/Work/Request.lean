import Mikaki.Work.Records

/-!
# Work requests

An owner's request is checked for shape and bound to the owner, the owner's
epoch and the policy revision under one digest.
-/

namespace Mikaki

open Checks

/-- Untrusted owner input. -/
structure RequestInput where
  profile : String
  requestId : String
  revision : Nat
  goal : String
  acceptance : String
  codeRepository : String
  baseCommit : String
  disclosureDigest : String
  recipient : String
  workload : String
  taskRepository : String
  adoptionRepository : String
  adoptionRef : String
  expectedHead : String
  operations : List String
  deadline : Nat
  deriving DecidableEq

structure WorkRequest where
  input : RequestInput
  owner : Id
  ownerEpoch : Nat
  policyRevision : Nat
  digest : Digest
  deriving DecidableEq

/-- Some character survives `trim`, and the only control characters are line feeds and tabs. -/
def text (value : String) (limit : Nat) : Bool :=
  value.toList.any (fun c => !Text.isWhiteSpace c) && value.utf8ByteSize ≤ limit &&
    !value.toList.any fun c => Text.isControl c && !(c == '\n' || c == '\t')

def branchRef (value : String) : Except Denied Unit :=
  denyIf (¬"refs/heads/".toList <+: value.toList ∨ value.utf8ByteSize > 256 ∨ "..".toList <:+: value.toList ∨
    "@\x7b".toList <:+: value.toList ∨
    (Text.bytes value).any (fun b => b ≤ 32 || b == 127 || (Text.bytes "~^:?*[\\").contains b) = true ∨
    (value.toList.splitOn '/').any (fun part =>
      part.isEmpty || part.head? == some '.' || part.getLast? == some '.' || ".lock".toList.isSuffixOf part) = true)
    .invalidInput

namespace RequestInput

def validateShape (self : RequestInput) : Except Denied Unit := do
  denyIf (self.profile ≠ Mikaki.profile ∨ self.operations ≠ [submit]) .unsupportedAction
  storedNumber self.revision false
  denyIf (text self.goal 4096 = false ∨ text self.acceptance 8192 = false) .invalidInput
  checkAll [self.requestId, self.codeRepository, self.recipient, self.workload, self.taskRepository,
    self.adoptionRepository] Id.check
  denyIf (self.taskRepository = self.codeRepository ∨ self.taskRepository = self.adoptionRepository) .bindingMismatch
  let _ ← gitOid self.baseCommit
  let _ ← gitOid self.expectedHead
  denyIf (self.baseCommit.utf8ByteSize ≠ self.expectedHead.utf8ByteSize) .invalidInput
  branchRef self.adoptionRef
  let _ ← Digest.parseHex self.disclosureDigest
  storedNumber self.deadline false

/-- What the request digest commits to. -/
def preimage (self : RequestInput) (owner : Id) (ownerEpoch policyRevision : Nat) : List UInt8 :=
  Hash.new "mikaki.work-request.v1" ++ Hash.text self.profile ++ Hash.text owner.text ++ Hash.number ownerEpoch ++
    Hash.number policyRevision ++ Hash.text self.requestId ++ Hash.number self.revision ++
    [self.goal, self.acceptance, self.codeRepository, self.baseCommit, self.disclosureDigest, self.recipient,
      self.workload, self.taskRepository, self.adoptionRepository, self.adoptionRef, self.expectedHead].flatMap
      Hash.text ++
    Framing.countedList Hash.text self.operations ++ Hash.number self.deadline

section
variable [Hashes]

def bind (self : RequestInput) (owner : Id) (ownerEpoch policyRevision : Nat) : WorkRequest :=
  { input := self, owner, ownerEpoch, policyRevision, digest := sha256 (self.preimage owner ownerEpoch policyRevision) }

def validate (self : RequestInput) (session : OwnerSession) (environment : Environment) :
    Except Denied WorkRequest := do
  session.check environment
  self.validateShape
  Mikaki.deadline environment.now self.deadline maxWorkSeconds
  return self.bind session.id session.epoch environment.policyRevision

end

/-! ## The stored record -/

def names : List String :=
  ["profile", "request_id", "revision", "goal", "acceptance", "code_repository", "base_commit", "disclosure_digest",
    "recipient", "workload", "task_repository", "adoption_repository", "adoption_ref", "expected_head", "operations",
    "deadline"]

def toJson (self : RequestInput) : Json.Value :=
  .obj [("profile", .str self.profile), ("request_id", .str self.requestId), ("revision", .num self.revision),
    ("goal", .str self.goal), ("acceptance", .str self.acceptance), ("code_repository", .str self.codeRepository),
    ("base_commit", .str self.baseCommit), ("disclosure_digest", .str self.disclosureDigest),
    ("recipient", .str self.recipient), ("workload", .str self.workload), ("task_repository", .str self.taskRepository),
    ("adoption_repository", .str self.adoptionRepository), ("adoption_ref", .str self.adoptionRef),
    ("expected_head", .str self.expectedHead), ("operations", .arr (self.operations.map .str)),
    ("deadline", .num self.deadline)]

open Records in
def read (v : Json.Value) : Option RequestInput := do
  let f ← Json.fields names v
  return {
    profile := ← field f "profile" string
    requestId := ← field f "request_id" string
    revision := ← field f "revision" u64
    goal := ← field f "goal" string
    acceptance := ← field f "acceptance" string
    codeRepository := ← field f "code_repository" string
    baseCommit := ← field f "base_commit" string
    disclosureDigest := ← field f "disclosure_digest" string
    recipient := ← field f "recipient" string
    workload := ← field f "workload" string
    taskRepository := ← field f "task_repository" string
    adoptionRepository := ← field f "adoption_repository" string
    adoptionRef := ← field f "adoption_ref" string
    expectedHead := ← field f "expected_head" string
    operations := ← field f "operations" strings
    deadline := ← field f "deadline" u64 }

end RequestInput

namespace WorkRequest

def requestId (self : WorkRequest) : String := self.input.requestId
def revision (self : WorkRequest) : Nat := self.input.revision
def expiresAt (self : WorkRequest) : Nat := self.input.deadline

def check (self : WorkRequest) (environment : Environment) : Except Denied Unit := do
  environment.checkOwner self.owner self.ownerEpoch
  denyIf (self.policyRevision ≠ environment.policyRevision) .stalePolicy
  denyIf (environment.now ≥ self.input.deadline) .expired

def toJson (self : WorkRequest) : Json.Value :=
  .obj [("input", self.input.toJson), ("owner", .str self.owner.text), ("owner_epoch", .num self.ownerEpoch),
    ("policy_revision", .num self.policyRevision), ("digest", .str self.digest.toHex)]

open Records in
/-- `StoredRequest`. -/
def read (v : Json.Value) : Option WorkRequest := do
  let f ← Json.fields ["input", "owner", "owner_epoch", "policy_revision", "digest"] v
  return {
    input := ← field f "input" RequestInput.read
    owner := ← field f "owner" Records.id
    ownerEpoch := ← field f "owner_epoch" u64
    policyRevision := ← field f "policy_revision" u64
    digest := ← field f "digest" Records.digest }

def authorityRecord (self : WorkRequest) : Except Denied String := Records.encode "request" self.toJson

def restoreAuthorityRecord [Hashes] (text : String) : Except Denied WorkRequest := do
  let raw ← Records.decode "request" read text
  raw.input.validateShape
  storedNumber raw.ownerEpoch true
  storedNumber raw.policyRevision false
  let request := raw.input.bind raw.owner raw.ownerEpoch raw.policyRevision
  denyIf (request.digest ≠ raw.digest) .reviewMismatch
  return request

end WorkRequest

end Mikaki
