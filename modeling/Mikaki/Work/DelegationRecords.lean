import Mikaki.Work.Delegation

/-!
# Stored grants, runs and candidates

The revision and the revocation flag are current state of the primary store and
not part of a record. A candidate is restored against its original request and
producer, by preparing and confirming it again.
-/

namespace Mikaki

open Checks Records

/-! ## Grants -/

namespace Grant

def toJson (self : Grant) : Json.Value :=
  .obj [("id", .str self.id.text), ("request", .str self.request.toHex), ("task_revision", .num self.taskRevision),
    ("expires_at", .num self.expiresAt)]

/-- `StoredGrant`, with the current state. -/
def read (revision : Nat) (revoked : Bool) (v : Json.Value) : Option Grant := do
  let f ← Json.fields ["id", "request", "task_revision", "expires_at"] v
  return {
    id := ← field f "id" Records.id
    revision
    request := ← field f "request" Records.digest
    taskRevision := ← field f "task_revision" u64
    expiresAt := ← field f "expires_at" u64
    revoked }

def authorityRecord (self : Grant) : Except Denied String := encode "grant" self.toJson

def restoreAuthorityRecord (text : String) (revision : Nat) (revoked : Bool) : Except Denied Grant := do
  let raw ← decode "grant" (read revision revoked) text
  Records.state revision revoked
  storedNumber raw.taskRevision false
  storedNumber raw.expiresAt false
  return raw

end Grant

/-! ## Runs -/

namespace Run

def toJson (self : Run) : Json.Value :=
  .obj [("id", .str self.id.text), ("grant", .str self.grant.text), ("request", .str self.request.toHex),
    ("issuer", .str self.issuer.text), ("issuer_revision", .num self.issuerRevision), ("client", .str self.client.text),
    ("workload", .str self.workload.text), ("proof_key", .str self.proofKey.toHex), ("expires_at", .num self.expiresAt)]

/-- `StoredRun`, with the current state. -/
def read (revision : Nat) (revoked : Bool) (v : Json.Value) : Option Run := do
  let f ← Json.fields ["id", "grant", "request", "issuer", "issuer_revision", "client", "workload", "proof_key",
    "expires_at"] v
  return {
    id := ← field f "id" Records.id
    revision
    grant := ← field f "grant" Records.id
    request := ← field f "request" Records.digest
    issuer := ← field f "issuer" Records.id
    issuerRevision := ← field f "issuer_revision" u64
    client := ← field f "client" Records.id
    workload := ← field f "workload" Records.id
    proofKey := ← field f "proof_key" Records.digest
    expiresAt := ← field f "expires_at" u64
    revoked }

def authorityRecord (self : Run) : Except Denied String := encode "run" self.toJson

def restoreAuthorityRecord (text : String) (revision : Nat) (revoked : Bool) : Except Denied Run := do
  let raw ← decode "run" (read revision revoked) text
  Records.state revision revoked
  storedNumber raw.issuerRevision false
  storedNumber raw.expiresAt false
  return raw

end Run

/-! ## Candidates -/

namespace ProducerRevision

def toJson (self : ProducerRevision) : Json.Value :=
  .obj [("grant", .str self.grant.text), ("grant_revision", .num self.grantRevision), ("run", .str self.run.text),
    ("run_revision", .num self.runRevision)]

def read (v : Json.Value) : Option ProducerRevision := do
  let f ← Json.fields ["grant", "grant_revision", "run", "run_revision"] v
  return {
    grant := ← field f "grant" Records.id
    grantRevision := ← field f "grant_revision" u64
    run := ← field f "run" Records.id
    runRevision := ← field f "run_revision" u64 }

/-- A review may capture the revisions of a revoked producer. -/
def checkStored (self : ProducerRevision) : Except Denied Unit := do
  storedNumber self.grantRevision false
  storedNumber self.runRevision false

end ProducerRevision

namespace SubmissionGuard

def names : List String :=
  ["owner", "owner_epoch", "policy_revision", "request", "request_revision", "producer", "task", "task_revision",
    "disclosure", "proof_key", "authentication_expires", "expires_at", "adoption_repository", "adoption_ref",
    "expected_head", "git_oid_length"]

def toJson (self : SubmissionGuard) : Json.Value :=
  .obj [("owner", .str self.owner.text), ("owner_epoch", .num self.ownerEpoch),
    ("policy_revision", .num self.policyRevision), ("request", .str self.request.toHex),
    ("request_revision", .num self.requestRevision), ("producer", self.producer.toJson), ("task", .str self.task.text),
    ("task_revision", .num self.taskRevision), ("disclosure", .str self.disclosure.toHex),
    ("proof_key", .str self.proofKey.toHex), ("authentication_expires", .num self.authenticationExpires),
    ("expires_at", .num self.expiresAt), ("adoption_repository", .str self.adoptionRepository),
    ("adoption_ref", .str self.adoptionRef), ("expected_head", .str self.expectedHead),
    ("git_oid_length", .num self.gitOidLength)]

/-- `StoredGuard`. -/
def read (v : Json.Value) : Option SubmissionGuard := do
  let f ← Json.fields names v
  return {
    owner := ← field f "owner" Records.id
    ownerEpoch := ← field f "owner_epoch" u64
    policyRevision := ← field f "policy_revision" u64
    request := ← field f "request" Records.digest
    requestRevision := ← field f "request_revision" u64
    producer := ← field f "producer" ProducerRevision.read
    task := ← field f "task" Records.id
    taskRevision := ← field f "task_revision" u64
    disclosure := ← field f "disclosure" Records.digest
    proofKey := ← field f "proof_key" Records.digest
    authenticationExpires := ← field f "authentication_expires" u64
    expiresAt := ← field f "expires_at" u64
    adoptionRepository := ← field f "adoption_repository" string
    adoptionRef := ← field f "adoption_ref" string
    expectedHead := ← field f "expected_head" string
    gitOidLength := ← field f "git_oid_length" u64 }

def restore (self : SubmissionGuard) (request : WorkRequest) (grant : Grant) (run : Run) :
    Except Denied SubmissionGuard := do
  denyIf (self.owner ≠ request.owner ∨ self.ownerEpoch ≠ request.ownerEpoch ∨
    self.policyRevision ≠ request.policyRevision ∨ self.request ≠ request.digest ∨
    self.requestRevision ≠ request.revision ∨ ¬self.producer.sameProducer grant run ∨
    self.producer.grantRevision ≠ 1 ∨ self.producer.runRevision ≠ 1 ∨ grant.request ≠ request.digest ∨
    run.request ≠ request.digest ∨ self.proofKey ≠ run.proofKey ∨ self.task.text ≠ request.input.taskRepository ∨
    self.taskRevision ≠ grant.taskRevision) .bindingMismatch
  let disclosure ← Digest.parseHex request.input.disclosureDigest
  denyIf (self.disclosure ≠ disclosure ∨ self.adoptionRepository ≠ request.input.adoptionRepository ∨
    self.adoptionRef ≠ request.input.adoptionRef ∨ self.expectedHead ≠ request.input.expectedHead ∨
    self.gitOidLength ≠ request.input.baseCommit.utf8ByteSize ∨ self.expiresAt ≠ min run.expiresAt grant.expiresAt)
    .bindingMismatch
  storedNumber self.authenticationExpires false
  storedNumber self.expiresAt false
  return self

end SubmissionGuard

namespace Candidate

def toJson (self : Candidate) : Json.Value :=
  .obj [("provenance", self.provenance.toJson), ("owner", .str self.owner.text), ("producer", self.producer.toJson),
    ("request", .str self.request.toHex), ("adoption_repository", .str self.adoptionRepository),
    ("adoption_ref", .str self.adoptionRef), ("expected_head", .str self.expectedHead), ("commit", .str self.commit),
    ("tree", .str self.tree), ("evidence", .str self.evidence.toHex), ("digest", .str self.digest.toHex)]

/-- `StoredCandidate`. -/
def read (v : Json.Value) : Option Candidate := do
  let f ← Json.fields ["provenance", "owner", "producer", "request", "adoption_repository", "adoption_ref",
    "expected_head", "commit", "tree", "evidence", "digest"] v
  return {
    provenance := ← field f "provenance" SubmissionGuard.read
    owner := ← field f "owner" Records.id
    producer := ← field f "producer" ProducerRevision.read
    request := ← field f "request" Records.digest
    adoptionRepository := ← field f "adoption_repository" string
    adoptionRef := ← field f "adoption_ref" string
    expectedHead := ← field f "expected_head" string
    commit := ← field f "commit" string
    tree := ← field f "tree" string
    evidence := ← field f "evidence" Records.digest
    digest := ← field f "digest" Records.digest }

def authorityRecord (self : Candidate) : Except Denied String := encode "candidate" self.toJson

def restoreAuthorityRecord [Hashes] (text : String) (request : WorkRequest) (grant : Grant) (run : Run) :
    Except Denied Candidate := do
  let raw ← decode "candidate" read text
  let guard ← raw.provenance.restore request grant run
  let prepared ← guard.prepareCandidate { commit := raw.commit, tree := raw.tree, evidence := raw.evidence }
  let candidate ← prepared.confirm guard
  denyIf (candidate.digest ≠ raw.digest ∨ candidate.owner ≠ raw.owner ∨ candidate.producer ≠ raw.producer ∨
    candidate.request ≠ raw.request ∨ candidate.adoptionRepository ≠ raw.adoptionRepository ∨
    candidate.adoptionRef ≠ raw.adoptionRef ∨ candidate.expectedHead ≠ raw.expectedHead) .reviewMismatch
  return candidate

end Candidate

end Mikaki
