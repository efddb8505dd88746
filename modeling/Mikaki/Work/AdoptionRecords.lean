import Mikaki.Work.Adoption
import Mikaki.Work.DelegationRecords

/-!
# Stored approvals and operations
-/

namespace Mikaki

open Checks Records

namespace CodeApproval

def toJson (self : CodeApproval) : Json.Value :=
  .obj [("id", .str self.id.text), ("owner", .str self.owner.text), ("owner_epoch", .num self.ownerEpoch),
    ("policy_revision", .num self.policyRevision), ("candidate", .str self.candidate.toHex),
    ("producer", self.producer.toJson), ("target_revision", .num self.targetRevision),
    ("expires_at", .num self.expiresAt)]

/-- `StoredApproval`, with the current state. -/
def read (revision : Nat) (revoked : Bool) (v : Json.Value) : Option CodeApproval := do
  let f ← Json.fields ["id", "owner", "owner_epoch", "policy_revision", "candidate", "producer", "target_revision",
    "expires_at"] v
  return {
    id := ← field f "id" Records.id
    revision
    owner := ← field f "owner" Records.id
    ownerEpoch := ← field f "owner_epoch" u64
    policyRevision := ← field f "policy_revision" u64
    candidate := ← field f "candidate" Records.digest
    producer := ← field f "producer" ProducerRevision.read
    targetRevision := ← field f "target_revision" u64
    expiresAt := ← field f "expires_at" u64
    revoked }

def authorityRecord (self : CodeApproval) : Except Denied String := encode "code_approval" self.toJson

def restoreAuthorityRecord (text : String) (revision : Nat) (revoked : Bool) : Except Denied CodeApproval := do
  let raw ← decode "code_approval" (read revision revoked) text
  Records.state revision revoked
  storedNumber raw.ownerEpoch true
  storedNumber raw.policyRevision false
  storedNumber raw.targetRevision false
  storedNumber raw.expiresAt false
  raw.producer.checkStored
  return raw

end CodeApproval

namespace Effect

def names : List String :=
  ["approval", "approval_revision", "owner", "owner_epoch", "policy_revision", "producer", "candidate",
    "target_revision", "repository", "reference", "expected_head", "commit"]

def toJson (self : Effect) : Json.Value :=
  .obj [("approval", .str self.approval.text), ("approval_revision", .num self.approvalRevision),
    ("owner", .str self.owner.text), ("owner_epoch", .num self.ownerEpoch),
    ("policy_revision", .num self.policyRevision), ("producer", self.producer.toJson),
    ("candidate", .str self.candidate.toHex), ("target_revision", .num self.targetRevision),
    ("repository", .str self.repository.text), ("reference", .str self.reference),
    ("expected_head", .str self.expectedHead), ("commit", .str self.commit)]

/-- `StoredEffect`. -/
def read (v : Json.Value) : Option Effect := do
  let f ← Json.fields names v
  return {
    approval := ← field f "approval" Records.id
    approvalRevision := ← field f "approval_revision" u64
    owner := ← field f "owner" Records.id
    ownerEpoch := ← field f "owner_epoch" u64
    policyRevision := ← field f "policy_revision" u64
    producer := ← field f "producer" ProducerRevision.read
    candidate := ← field f "candidate" Records.digest
    targetRevision := ← field f "target_revision" u64
    repository := ← field f "repository" Records.id
    reference := ← field f "reference" string
    expectedHead := ← field f "expected_head" string
    commit := ← field f "commit" string }

end Effect

namespace OperationState

def terminal : OperationState → Bool
  | .applied | .rejected => true
  | _ => false

end OperationState

namespace ExternalOperation

def toJson (self : ExternalOperation) : Json.Value :=
  .obj [("id", .str self.id.text), ("effect", self.effect.toJson)]

/-- `StoredOperation`. -/
def read (v : Json.Value) : Option (Id × Effect) := do
  let f ← Json.fields ["id", "effect"] v
  return (← field f "id" Records.id, ← field f "effect" Effect.read)

def authorityRecord (self : ExternalOperation) : Except Denied String := encode "code_operation" self.toJson

/-- `receipt.map(Id::parse).transpose()`. -/
def readReceipt : Option String → Except Denied (Option Id)
  | none => .ok none
  | some receipt => do
    let id ← Id.parse receipt
    return some id

def restoreAuthorityRecord (text : String) (current : OperationState) (receipt : Option String) :
    Except Denied ExternalOperation := do
  let (id, effect) ← decode "code_operation" read text
  storedNumber effect.ownerEpoch true
  checkAll [effect.approvalRevision, effect.policyRevision, effect.targetRevision] (storedNumber · false)
  effect.producer.checkStored
  branchRef effect.reference
  let _ ← gitOid effect.expectedHead
  let _ ← gitOid effect.commit
  denyIf (effect.expectedHead.utf8ByteSize ≠ effect.commit.utf8ByteSize) .invalidInput
  denyIf (current.terminal ≠ receipt.isSome) .invalidInput
  let receipt ← readReceipt receipt
  return { id, effect, state := current, receipt }

end ExternalOperation

end Mikaki
