import Mikaki.Work.Repository

/-!
# Grants, runs, submission guards and candidates

An owner grants one request, a managed launcher registers a run of it, the run
is authorized to submit under a guard, and the guard prepares and confirms one
candidate.
-/

namespace Mikaki

open Checks

/-- `revoke` of a grant, a run or an approval: the reply, the new revision and the new flag. -/
def revokeState (revision : Nat) (revoked : Bool) : Except Denied Unit × Nat × Bool :=
  if revoked = false then
    match checkedSucc revision with
    | none => (.error .invalidTransition, revision, revoked)
    | some next => (.ok (), next, true)
  else (.ok (), revision, revoked)

/-! ## Grants -/

structure Grant where
  id : Id
  revision : Nat
  request : Digest
  taskRevision : Nat
  expiresAt : Nat
  revoked : Bool
  deriving DecidableEq

namespace Grant

def approve (id : String) (request : WorkRequest) (reviewed : Digest) (session : OwnerSession) (task : TaskRepository)
    (environment : Environment) : Except Denied Grant := do
  session.check environment
  request.check environment
  denyIf (session.id ≠ request.owner) .ownerMismatch
  denyIf (request.digest ≠ reviewed) .reviewMismatch
  task.check request
  let id ← Id.parse id
  return { id, revision := 1, request := reviewed, taskRevision := task.revision, expiresAt := request.expiresAt
           revoked := false }

def revoke (self : Grant) : Except Denied Unit × Grant :=
  let (reply, revision, revoked) := revokeState self.revision self.revoked
  (reply, { self with revision, revoked })

def check (self : Grant) (request : WorkRequest) (task : TaskRepository) (environment : Environment) :
    Except Denied Unit := do
  request.check environment
  denyIf (self.revoked = true) .revoked
  denyIf (environment.now ≥ self.expiresAt) .expired
  denyIf (self.request ≠ request.digest) .staleRequest
  task.check request
  denyIf (task.revision ≠ self.taskRevision) .staleTarget

end Grant

/-! ## Runs -/

/-- Verified launcher, requester and proof facts. -/
structure ManagedActor where
  issuer : Id
  issuerRevision : Nat
  client : Id
  workload : Id
  run : Id
  grant : Id
  proofKey : Digest
  expiresAt : Nat
  stored : (0 < issuerRevision ∧ issuerRevision ≤ maxStoredInteger) ∧ 0 < expiresAt ∧ expiresAt ≤ maxStoredInteger

structure ManagedActorFacts where
  issuer : String
  issuerRevision : Nat
  client : String
  workload : String
  run : String
  grant : String
  proofKey : Digest
  expiresAt : Nat

def ManagedActor.fromVerifiedRequest (facts : ManagedActorFacts) : Except Denied ManagedActor := do
  if stored : (0 < facts.issuerRevision ∧ facts.issuerRevision ≤ maxStoredInteger) ∧
      0 < facts.expiresAt ∧ facts.expiresAt ≤ maxStoredInteger then
    let issuer ← Id.parse facts.issuer
    let client ← Id.parse facts.client
    let workload ← Id.parse facts.workload
    let run ← Id.parse facts.run
    let grant ← Id.parse facts.grant
    return { issuer, issuerRevision := facts.issuerRevision, client, workload, run, grant, proofKey := facts.proofKey
             expiresAt := facts.expiresAt, stored }
  else .error .invalidInput

structure Run where
  id : Id
  revision : Nat
  grant : Id
  request : Digest
  issuer : Id
  issuerRevision : Nat
  client : Id
  workload : Id
  proofKey : Digest
  expiresAt : Nat
  revoked : Bool
  deriving DecidableEq

structure ProducerRevision where
  grant : Id
  grantRevision : Nat
  run : Id
  runRevision : Nat
  deriving DecidableEq

namespace ProducerRevision

def current (grant : Grant) (run : Run) : ProducerRevision :=
  { grant := grant.id, grantRevision := grant.revision, run := run.id, runRevision := run.revision }

def sameProducer (self : ProducerRevision) (grant : Grant) (run : Run) : Prop :=
  self.grant = grant.id ∧ self.run = run.id ∧ run.grant = grant.id

instance (self : ProducerRevision) (grant : Grant) (run : Run) : Decidable (self.sameProducer grant run) :=
  inferInstanceAs (Decidable (_ ∧ _))

end ProducerRevision

/-- The exact read set of a submission. -/
structure SubmissionGuard where
  owner : Id
  ownerEpoch : Nat
  policyRevision : Nat
  request : Digest
  requestRevision : Nat
  producer : ProducerRevision
  task : Id
  taskRevision : Nat
  disclosure : Digest
  proofKey : Digest
  authenticationExpires : Nat
  expiresAt : Nat
  adoptionRepository : String
  adoptionRef : String
  expectedHead : String
  gitOidLength : Nat
  deriving DecidableEq

namespace Run

def register (actor : ManagedActor) (grant : Grant) (request : WorkRequest) (task : TaskRepository) (expiresAt : Nat)
    (environment : Environment) : Except Denied Run := do
  grant.check request task environment
  denyIf (actor.expiresAt ≤ environment.now) .expired
  denyIf (actor.grant ≠ grant.id ∨ actor.client.text ≠ request.input.recipient ∨
    actor.workload.text ≠ request.input.workload) .bindingMismatch
  deadline environment.now expiresAt maxWorkSeconds
  denyIf (expiresAt > grant.expiresAt) .expired
  return { id := actor.run, revision := 1, grant := grant.id, request := request.digest, issuer := actor.issuer
           issuerRevision := actor.issuerRevision, client := actor.client, workload := actor.workload
           proofKey := actor.proofKey, expiresAt, revoked := false }

def revoke (self : Run) : Except Denied Unit × Run :=
  let (reply, revision, revoked) := revokeState self.revision self.revoked
  (reply, { self with revision, revoked })

def authorizeSubmission (self : Run) (action : String) (grant : Grant) (request : WorkRequest) (actor : ManagedActor)
    (task : TaskRepository) (environment : Environment) : Except Denied SubmissionGuard := do
  denyIf (action ≠ submit) .unsupportedAction
  grant.check request task environment
  denyIf (self.revoked = true) .revoked
  denyIf (environment.now ≥ self.expiresAt ∨ environment.now ≥ actor.expiresAt) .expired
  denyIf (self.request ≠ request.digest) .staleRequest
  denyIf (self.grant ≠ grant.id ∨ actor.grant ≠ grant.id ∨ actor.run ≠ self.id ∨ actor.issuer ≠ self.issuer ∨
    actor.issuerRevision ≠ self.issuerRevision ∨ actor.client ≠ self.client ∨ actor.workload ≠ self.workload ∨
    actor.proofKey ≠ self.proofKey) .bindingMismatch
  return { owner := request.owner, ownerEpoch := request.ownerEpoch, policyRevision := environment.policyRevision
           request := request.digest, requestRevision := request.revision
           producer := .current grant self, task := task.id, taskRevision := task.revision, disclosure := task.disclosure
           proofKey := actor.proofKey, authenticationExpires := actor.expiresAt
           expiresAt := min self.expiresAt grant.expiresAt, adoptionRepository := request.input.adoptionRepository
           adoptionRef := request.input.adoptionRef, expectedHead := request.input.expectedHead
           gitOidLength := request.input.baseCommit.utf8ByteSize }

end Run

/-! ## Candidates -/

structure CandidateInput where
  commit : String
  tree : String
  evidence : Digest

structure Candidate where
  provenance : SubmissionGuard
  owner : Id
  producer : ProducerRevision
  request : Digest
  adoptionRepository : String
  adoptionRef : String
  expectedHead : String
  commit : String
  tree : String
  evidence : Digest
  digest : Digest
  deriving DecidableEq

structure PreparedCandidate where
  guard : SubmissionGuard
  candidate : Candidate
  deriving DecidableEq

namespace SubmissionGuard

/-- What the candidate digest commits to. -/
def preimage (self : SubmissionGuard) (commit tree : String) (evidence : Digest) : List UInt8 :=
  Hash.new "mikaki.work-candidate.v1" ++ Hash.digest self.request ++ Hash.text self.owner.text ++
    Hash.number self.ownerEpoch ++ Hash.number self.policyRevision ++ Hash.text self.producer.grant.text ++
    Hash.number self.producer.grantRevision ++ Hash.text self.producer.run.text ++
    Hash.number self.producer.runRevision ++ Hash.digest self.proofKey ++ Hash.text self.task.text ++
    Hash.number self.taskRevision ++ Hash.digest self.disclosure ++ Hash.text commit ++ Hash.text tree ++
    Hash.digest evidence

def prepareCandidate [Hashes] (self : SubmissionGuard) (input : CandidateInput) : Except Denied PreparedCandidate := do
  let commit ← gitOid input.commit
  let tree ← gitOid input.tree
  denyIf (commit.utf8ByteSize ≠ self.gitOidLength ∨ tree.utf8ByteSize ≠ self.gitOidLength) .invalidInput
  return { guard := self
           candidate :=
             { provenance := self, owner := self.owner, producer := self.producer, request := self.request
               adoptionRepository := self.adoptionRepository, adoptionRef := self.adoptionRef
               expectedHead := self.expectedHead, commit, tree, evidence := input.evidence
               digest := sha256 (self.preimage commit tree input.evidence) } }

end SubmissionGuard

def PreparedCandidate.confirm (self : PreparedCandidate) (current : SubmissionGuard) : Except Denied Candidate := do
  denyIf (self.guard ≠ current) .staleAuthority
  return self.candidate

def Candidate.checkProducer (self : Candidate) (grant : Grant) (run : Run) : Except Denied Unit :=
  denyIf (¬self.producer.sameProducer grant run ∨ self.request ≠ grant.request ∨ self.request ≠ run.request)
    .bindingMismatch

end Mikaki
