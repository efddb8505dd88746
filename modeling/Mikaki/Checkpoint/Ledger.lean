import Mikaki.Checkpoint.Object
import Mikaki.Lib.Calls
import Mikaki.Lib.Rows

/-!
# The independent effect ledger

Beside its state the checkpoint object keeps one record for each initial
repository and one for each minted token. A call reads a record, checks it,
changes it and saves it in one transaction; a call that throws leaves
everything as it was. Times are whole seconds, and the time does not advance
inside a transaction.
-/

namespace Mikaki.WorkCheckpoint

open Checks Rows

/-! ## What a call does to one record -/

namespace EffectRecord

def observe (digest repoId : String) (r : EffectRecord) : Except Fault EffectRecord := do
  denyIf (r.plan.digest ≠ digest ∨ (r.repoId ≠ none ∧ r.repoId ≠ some repoId)) .effectConflict
  return { r with repoId := some repoId }

def close (digest : String) (input : Closure) (r : EffectRecord) : Except Fault EffectRecord := do
  denyIf (r.plan.digest ≠ digest ∨ r.repoId ≠ some input.repoId ∨
    ∃ c ∈ r.closure, c.tokenId ≠ input.tokenId ∨ c.expiresAt ≠ input.expiresAt ∨ c.receipt ≠ input.receipt)
    .effectConflict
  return { r with closure := some input, state := .closed }

def observeToken (digest : String) (input : TokenObservation) (now : Nat) (r : EffectRecord) :
    Except Fault EffectRecord := do
  denyIf (r.state ≠ .outcomeUnknown ∨ r.plan.digest ≠ digest ∨ r.repoId ≠ some input.repoId ∨
    ∃ o ∈ r.tokenObservation, o.value.tokenId ≠ input.tokenId ∨ o.value.expiresAt ≠ input.expiresAt) .effectConflict
  return { r with tokenObservation := r.tokenObservation.getD ⟨input, now⟩ }

def recordInventory (digest : String) (input : RevocationInventory) (now : Nat) (r : EffectRecord) :
    Except Fault EffectRecord := do
  denyIf (r.state ≠ .outcomeUnknown ∨ r.plan.digest ≠ digest ∨ r.repoId ≠ some input.repoId ∨
    (∀ o ∈ r.tokenObservation, o.value.tokenId ≠ input.tokenId ∨ o.value.expiresAt ≠ input.expiresAt) ∨
    ∃ c ∈ r.cleanup, c.value.tokenId ≠ input.tokenId ∨ c.value.expiresAt ≠ input.expiresAt ∨
      c.value.receipt ≠ input.receipt ∨ c.value.method ≠ input.method) .effectConflict
  return { r with cleanup := r.cleanup.getD ⟨input, now⟩ }

end EffectRecord

namespace MintRecord

def observe (digest : String) (input : MintObservation) (r : MintRecord) : Except Fault MintRecord := do
  denyIf (r.plan.digest ≠ digest ∨ r.plan.repoId ≠ input.repoId ∨
    ∃ o ∈ r.observation, o.tokenId ≠ input.tokenId ∨ o.scope ≠ input.scope ∨ o.expiresAt ≠ input.expiresAt)
    .effectConflict
  return { r with observation := some input }

/-- Custody is a result observation, never copy verification or release. -/
def custody (digest : String) (now : Nat) (r : MintRecord) : Except Fault MintRecord := do
  denyIf (r.plan.digest ≠ digest ∨ r.state = .closed ∨ r.revokeAcknowledged = true ∨ r.cleanupRequested = true ∨
    ∀ o ∈ r.observation, o.scope ≠ r.plan.scope ∨ o.expiresAt > r.plan.expiresAt ∨ o.expiresAt ≤ now) .effectConflict
  return { r with state := .custodied }

def revoke (digest : String) (safety : Bool) (r : MintRecord) : Except Fault MintRecord := do
  denyIf (r.plan.digest ≠ digest ∨ r.state = .closed ∨ r.observation = none ∨
    (safety = true ∧ (r.cleanupRequested = false ∨ r.state ≠ .outcomeUnknown))) .effectConflict
  return { r with revokeAcknowledged := true, cleanupRequested := true, state := .outcomeUnknown }

def close (digest receipt : String) (r : MintRecord) : Except Fault MintRecord := do
  denyIf (r.plan.digest ≠ digest ∨ r.cleanupRequested = false ∨
    (∀ o ∈ r.observation, o.scope ≠ r.plan.scope ∨ o.expiresAt > r.plan.expiresAt) ∨
    (r.receipt ≠ none ∧ r.receipt ≠ some receipt)) .effectConflict
  return { r with state := .closed, receipt := some receipt }

def beginCleanup (digest : String) (productive : Bool) (r : MintRecord) : Except Fault MintRecord := do
  denyIf (r.plan.digest ≠ digest ∨ r.state = .closed ∨ (productive = false ∧ r.state ≠ .outcomeUnknown)) .effectConflict
  return { r with cleanupRequested := true, state := .outcomeUnknown }

def recordCleanup (digest : String) (input : MintCleanup) (now : Nat) (r : MintRecord) : Except Fault MintRecord := do
  denyIf (r.observation ≠ some input.toMintObservation ∨ r.plan.digest ≠ digest ∨ r.state ≠ .outcomeUnknown ∨
    r.cleanupRequested = false ∨ (input.method = .revokeAcknowledged ∧ r.revokeAcknowledged = false) ∨
    ∃ c ∈ r.cleanup, c.value.receipt ≠ input.receipt ∨ c.value.method ≠ input.method) .effectConflict
  return { r with cleanup := r.cleanup.getD ⟨input, now⟩ }

def closeRefused (digest : String) (input : MintRefusal) (now : Nat) (r : MintRecord) : Except Fault MintRecord := do
  denyIf (r.observation ≠ some input.toMintObservation ∨ r.cleanup = none ∨ r.cleanupRequested = false ∨
    r.plan.digest ≠ digest ∨ r.state = .custodied ∨ input.keyVersion ≠ r.plan.keyVersion ∨
    ∃ f ∈ r.refusal, f.value.receipt ≠ input.receipt) .effectConflict
  return { r with refusal := r.refusal.getD ⟨input, now⟩, state := .closed }

/-- The Git plan is for this custodied mint and its observation. -/
def gitAdmissible (input : GitPlan) (now : Nat) (r : MintRecord) : Except Fault Unit := do
  denyIf (r.state ≠ .custodied ∨ r.cleanupRequested = true ∨ r.observation = none ∨
    input.observation.expiresAt ≤ now + 5 ∨ input.deadline ≤ now + 5) .gitBlocked
  denyIf (r.plan.toIntent ≠ input.toIntent ∨ r.observation ≠ some input.observation ∨
    input.observation.expiresAt > r.plan.expiresAt) .gitConflict

/-- The closed and completed upload that a readback verifies. -/
def uploadedFor (input : GitPlan) (r : MintRecord) : Prop :=
  r.state = .closed ∧ r.refusal ≠ none ∧ r.plan.repoId = input.repoId ∧
    ∃ g ∈ r.git, g.state = .completed ∧ g.result ≠ none ∧ g.plan.preparationDigest = input.preparationDigest ∧
      g.plan.disclosureDigest = input.disclosureDigest ∧ g.plan.commit = input.commit ∧ g.plan.tree = input.tree ∧
      g.plan.branch = input.branch

instance (input : GitPlan) (r : MintRecord) : Decidable (r.uploadedFor input) := by unfold uploadedFor; infer_instance

/-- What one take leaves of the admission. -/
def take (input : GitPlan) (transport : Bool) (now : Nat) (r : MintRecord) : Except Fault MintRecord := do
  match r.git with
  | none => .error .gitBlocked
  | some g =>
    denyIf (r.state ≠ .custodied ∨ r.cleanupRequested = true ∨ g.plan ≠ input ∨
      g.state ≠ (if transport then .dispatching else .admitted) ∨ input.observation.expiresAt ≤ now + 5) .gitBlocked
    return { r with git := some { g with state := if transport then .outcomeUnknown else .dispatching } }

/-- The result that `finishGit` records, if any. -/
def completed (result : Option GitResult) (g : GitRecord) : Except Fault GitRecord := do
  match result with
  | none => return g
  | some input =>
    gitResult input g.plan
    denyIf (g.state ≠ .outcomeUnknown ∧ g.state ≠ .completed) .gitConflict
    denyIf (g.result ≠ none ∧ g.result ≠ some input) .gitConflict
    return { g with result := some input, state := .completed }

def finish (result : Option GitResult) (r : MintRecord) : Except Fault MintRecord := do
  match r.git with
  | none => .error .gitConflict
  | some g =>
    denyIf (r.state = .closed) .gitConflict
    let g ← completed result g
    return { r with git := some g, cleanupRequested := true, state := .outcomeUnknown }

end MintRecord

/-! ## The ledger -/

structure Ledger where
  state : Option State
  effects : List EffectRecord
  mints : List MintRecord

namespace Ledger

def current (l : Ledger) (release : Nat) : Except Fault State :=
  match l.state with
  | none => .error .checkpointUninitialized
  | some s => do
    s.current release
    return s

def effect (l : Ledger) (attempt : String) : Except Fault (Option EffectRecord) := do
  denyIf (opaqueId attempt = false) .effectInvalid
  return lookup EffectRecord.attempt attempt l.effects

def saveEffect (l : Ledger) (r : EffectRecord) : Ledger := { l with effects := put EffectRecord.attempt r l.effects }

def mint (l : Ledger) (attempt : String) : Except Fault (Option MintRecord) := do
  denyIf (opaqueId attempt = false) .effectInvalid
  return lookup MintRecord.attempt attempt l.mints

/-- `INSERT OR REPLACE` removes the rows that clash on either key. -/
def saveMint (l : Ledger) (r : MintRecord) : Ledger :=
  { l with mints := l.mints.filter (fun b => b.attempt ≠ r.attempt ∧ b.slot ≠ r.slot) ++ [r] }

/-- `INSERT`, which fails where a row clashes. -/
def insertMint (l : Ledger) (r : MintRecord) : Except Fault Ledger := do
  denyIf (∃ b ∈ l.mints, b.attempt = r.attempt ∨ b.slot = r.slot) .uniqueConstraint
  return { l with mints := l.mints ++ [r] }

def entries (l : Ledger) : Nat := l.effects.length + l.mints.length

/-- Read a record, change it and save it. -/
def onEffect (l : Ledger) (attempt : String) (f : EffectRecord → Except Fault EffectRecord) :
    Except Fault (EffectRecord × Ledger) := do
  match ← l.effect attempt with
  | none => .error .effectConflict
  | some r =>
    let r ← f r
    return (r, l.saveEffect r)

def onMint (l : Ledger) (missing : Fault) (attempt : String) (f : MintRecord → Except Fault MintRecord) :
    Except Fault (MintRecord × Ledger) := do
  match ← l.mint attempt with
  | none => .error missing
  | some r =>
    let r ← f r
    return (r, l.saveMint r)

/-- No permit is pending and the plan was made at the current checkpoint. -/
def admitting (l : Ledger) (release : Nat) (plan : Checkpoint) (e : Fault) : Except Fault Unit := do
  let s ← l.current release
  denyIf (s.pending ≠ none ∨ s.checkpoint ≠ plan) e

def claimEffect (authority : String) (l : Ledger) (input : InitialPlan) (release now : Nat) :
    Except Fault (Bool × EffectRecord × Ledger) := do
  initialPlan input
  l.admitting release input.checkpoint .effectBlocked
  denyIf (input.checkpoint.authority ≠ authority ∨ input.deadline ≤ now) .effectBlocked
  match ← l.effect input.attemptId with
  | some previous =>
    denyIf (previous.plan.digest ≠ input.digest ∨ previous.plan.nameSpace ≠ input.nameSpace ∨
      previous.plan.name ≠ input.name ∨ previous.plan.role ≠ input.role ∨ previous.plan.deadline ≠ input.deadline)
      .effectConflict
    return (false, previous, l)
  | none =>
    -- Retained tombstones never expire or get reclaimed.
    denyIf (l.entries ≥ 256) .effectCapacity
    let record : EffectRecord :=
      { plan := input, state := .outcomeUnknown, repoId := none, closure := none, cleanup := none, tokenObservation := none }
    return (true, record, l.saveEffect record)

/-- The initial repository of a mint is closed and is the one the plan names. -/
def initialClosed (input : MintPlan) (initial : EffectRecord) : Prop :=
  initial.state = .closed ∧ (∃ c ∈ initial.closure, c.repoId = input.repoId) ∧
    initial.plan.nameSpace = input.nameSpace ∧ initial.plan.name = input.name ∧ initial.plan.role = input.role ∧
    initial.plan.deadline = input.deadline

instance (input : MintPlan) (initial : EffectRecord) : Decidable (initialClosed input initial) := by
  unfold initialClosed; infer_instance

/-- The record that a started mint begins with. -/
def minted (input : MintPlan) : MintRecord :=
  { plan := input, state := .outcomeUnknown, observation := none, revokeAcknowledged := false, cleanupRequested := false
    receipt := none, cleanup := none, refusal := none, git := none }

def claimMint (authority : String) (l : Ledger) (input : MintPlan) (release now : Nat) :
    Except Fault (Bool × MintRecord × Ledger) := do
  mintPlan input
  l.admitting release input.checkpoint .effectBlocked
  denyIf (input.checkpoint.authority ≠ authority ∨ input.expiresAt ≤ now + 61 ∨ input.expiresAt > now + 300)
    .effectBlocked
  let initial ← l.effect input.initialAttemptId
  denyIf (∀ i ∈ initial, ¬initialClosed input i) .effectInitialNotClosed
  match ← l.mint input.attemptId with
  | some previous =>
    -- The checkpoint and the expiry may differ between retries, the intent may not.
    denyIf (previous.plan.toIntent ≠ input.toIntent) .effectConflict
    return (false, previous, l)
  | none =>
    denyIf (l.entries ≥ 256) .effectCapacity
    let l ← l.insertMint (minted input)
    return (true, minted input, l)

/-- The upload under the same repository name. -/
def uploadOf (l : Ledger) (input : GitPlan) : Option MintRecord :=
  lookup MintRecord.slot (input.nameSpace, input.name, Purpose.upload) l.mints

def claimGit (l : Ledger) (input : GitPlan) (now : Nat) : Except Fault (Bool × MintRecord × Ledger) := do
  gitPlan input
  l.admitting 1 input.checkpoint .gitBlocked
  match ← l.mint input.attemptId with
  | none => .error .gitBlocked
  | some r =>
    r.gitAdmissible input now
    match r.git with
    | some g =>
      denyIf (g.plan ≠ input) .gitConflict
      return (false, r, l)
    | none =>
      denyIf (input.purpose = .readback ∧ ∀ u ∈ l.uploadOf input, ¬u.uploadedFor input) .gitUploadNotClosed
      let r := { r with git := some { plan := input, state := .admitted, result := none } }
      return (true, r, l.saveMint r)

def takeGit (l : Ledger) (input : GitPlan) (transport : Bool) (now : Nat) : Except Fault (MintRecord × Ledger) := do
  gitPlan input
  l.admitting 1 input.checkpoint .gitBlocked
  l.onMint .gitBlocked input.attemptId (·.take input transport now)

def finishGit (l : Ledger) (attempt : String) (result : Option GitResult) : Except Fault (MintRecord × Ledger) :=
  l.onMint .gitConflict attempt (·.finish result)

def observeMint (l : Ledger) (attempt digest : String) (input : MintObservation) : Except Fault (MintRecord × Ledger) := do
  mintObservation input
  l.onMint .effectConflict attempt (·.observe digest input)

def custodyMint (l : Ledger) (attempt digest : String) (now : Nat) : Except Fault (MintRecord × Ledger) :=
  l.onMint .effectConflict attempt (·.custody digest now)

def revokeMint (l : Ledger) (attempt digest : String) (safety : Bool) : Except Fault (MintRecord × Ledger) :=
  l.onMint .effectConflict attempt (·.revoke digest safety)

def closeMint (l : Ledger) (attempt digest receipt : String) : Except Fault (MintRecord × Ledger) := do
  denyIf (hex receipt = false) .effectInvalid
  l.onMint .effectConflict attempt (·.close digest receipt)

def beginMintCleanup (l : Ledger) (attempt digest : String) (productive : Bool) : Except Fault (MintRecord × Ledger) :=
  l.onMint .effectConflict attempt (·.beginCleanup digest productive)

def recordMintCleanup (l : Ledger) (attempt digest : String) (input : MintCleanup) (now : Nat) :
    Except Fault (MintRecord × Ledger) := do
  mintCleanup input
  l.onMint .effectConflict attempt (·.recordCleanup digest input now)

def closeMintRefused (l : Ledger) (attempt digest : String) (input : MintRefusal) (now : Nat) :
    Except Fault (MintRecord × Ledger) := do
  mintRefusal input
  l.onMint .effectConflict attempt (·.closeRefused digest input now)

def observeEffect (l : Ledger) (attempt digest repoId : String) : Except Fault (EffectRecord × Ledger) := do
  denyIf (hex digest = false ∨ resource repoId = false) .effectInvalid
  l.onEffect attempt (·.observe digest repoId)

def closeEffect (l : Ledger) (attempt digest : String) (input : Closure) : Except Fault (EffectRecord × Ledger) := do
  closure input
  denyIf (hex digest = false) .effectInvalid
  l.onEffect attempt (·.close digest input)

def observeEffectToken (l : Ledger) (attempt digest : String) (input : TokenObservation) (now : Nat) :
    Except Fault (EffectRecord × Ledger) := do
  tokenObservation input
  denyIf (hex digest = false) .effectInvalid
  l.onEffect attempt (·.observeToken digest input now)

def recordRevocationInventory (l : Ledger) (attempt digest : String) (input : RevocationInventory) (now : Nat) :
    Except Fault (EffectRecord × Ledger) := do
  revocationInventory input
  denyIf (hex digest = false) .effectInvalid
  l.onEffect attempt (·.recordInventory digest input now)

end Ledger

/-! ## Calls -/

inductive Call where
  | bootstrap (initial : Checkpoint) (releaseFloor : Nat)
  | begin (expected : Checkpoint) (operation : String) (release : Nat) (tip : String)
  | commit (plan : Permit) (observed : Checkpoint) (release : Nat)
  | raiseFloor (value : Nat)
  | freeze
  | claimEffect (input : InitialPlan) (release now : Nat)
  | observeEffect (attempt digest repoId : String)
  | closeEffect (attempt digest : String) (input : Closure)
  | observeEffectToken (attempt digest : String) (input : TokenObservation) (now : Nat)
  | recordRevocationInventory (attempt digest : String) (input : RevocationInventory) (now : Nat)
  | claimMint (input : MintPlan) (release now : Nat)
  | observeMint (attempt digest : String) (input : MintObservation)
  | custodyMint (attempt digest : String) (now : Nat)
  | revokeMint (attempt digest : String) (safety : Bool)
  | beginMintCleanup (attempt digest : String) (productive : Bool)
  | recordMintCleanup (attempt digest : String) (input : MintCleanup) (now : Nat)
  | closeMint (attempt digest receipt : String)
  | closeMintRefused (attempt digest : String) (input : MintRefusal) (now : Nat)
  | claimGit (input : GitPlan) (now : Nat)
  | takeGit (input : GitPlan) (transport : Bool) (now : Nat)
  | finishGit (attempt : String) (result : Option GitResult)

/-- A reply; `claimed*` carry `started`. -/
inductive Reply where
  | done
  | permit (p : Permit)
  | checkpoint (c : Checkpoint)
  | effect (r : EffectRecord)
  | mint (r : MintRecord)
  | claimedEffect (started : Bool) (r : EffectRecord)
  | claimedMint (started : Bool) (r : MintRecord)
  | claimedGit (started : Bool) (r : MintRecord)

namespace Ledger

/-- A call on the checkpoint state alone. -/
def onState (l : Ledger) (f : State → Except Fault (Reply × State)) : Except Fault (Reply × Ledger) :=
  match l.state with
  | none => .error .checkpointUninitialized
  | some s => do
    let (reply, s) ← f s
    return (reply, { l with state := some s })

def bootstrap (authority : String) (l : Ledger) (initial : Checkpoint) (releaseFloor : Nat) :
    Except Fault (Reply × Ledger) := do
  let s ← State.bootstrap authority initial releaseFloor
  denyIf (l.state ≠ none ∨ l.effects ≠ [] ∨ l.mints ≠ []) .checkpointAlreadyInitialized
  return (.checkpoint initial, { l with state := some s })

/-- The reply and the ledger that a record call returns. -/
def recorded {α : Type} (reply : α → Reply) (x : Except Fault (α × Ledger)) : Except Fault (Reply × Ledger) := do
  let (r, l) ← x
  return (reply r, l)

def claimed {α : Type} (reply : Bool → α → Reply) (x : Except Fault (Bool × α × Ledger)) : Except Fault (Reply × Ledger) := do
  let (started, r, l) ← x
  return (reply started r, l)

def answer (authority : String) (c : Call) (l : Ledger) : Except Fault (Reply × Ledger) :=
  match c with
  | .bootstrap initial releaseFloor => l.bootstrap authority initial releaseFloor
  | .begin expected operation release tip => l.onState fun s => do
    let (p, s) ← s.begin authority expected operation release tip
    return (.permit p, s)
  | .commit plan observed release => l.onState fun s => do
    let (c, s) ← s.commit plan observed release
    return (.checkpoint c, s)
  | .raiseFloor value => l.onState fun s => do
    let s ← s.raiseFloor value
    return (.done, s)
  | .freeze => l.onState fun s => .ok (.done, s.freeze)
  | .claimEffect input release now => claimed .claimedEffect (l.claimEffect authority input release now)
  | .observeEffect attempt digest repoId => recorded (fun _ => .done) (l.observeEffect attempt digest repoId)
  | .closeEffect attempt digest input => recorded .effect (l.closeEffect attempt digest input)
  | .observeEffectToken attempt digest input now => recorded .effect (l.observeEffectToken attempt digest input now)
  | .recordRevocationInventory attempt digest input now =>
    recorded .effect (l.recordRevocationInventory attempt digest input now)
  | .claimMint input release now => claimed .claimedMint (l.claimMint authority input release now)
  | .observeMint attempt digest input => recorded (fun _ => .done) (l.observeMint attempt digest input)
  | .custodyMint attempt digest now => recorded .mint (l.custodyMint attempt digest now)
  | .revokeMint attempt digest safety => recorded (fun _ => .done) (l.revokeMint attempt digest safety)
  | .beginMintCleanup attempt digest productive => recorded .mint (l.beginMintCleanup attempt digest productive)
  | .recordMintCleanup attempt digest input now => recorded .mint (l.recordMintCleanup attempt digest input now)
  | .closeMint attempt digest receipt => recorded .mint (l.closeMint attempt digest receipt)
  | .closeMintRefused attempt digest input now => recorded .mint (l.closeMintRefused attempt digest input now)
  | .claimGit input now => claimed .claimedGit (l.claimGit input now)
  | .takeGit input transport now => recorded (fun _ => .done) (l.takeGit input transport now)
  | .finishGit attempt result => recorded .mint (l.finishGit attempt result)

/-- A call that throws rolls its transaction back. -/
def step (authority : String) (c : Call) (l : Ledger) : Except Fault Reply × Ledger :=
  match l.answer authority c with
  | .error e => (.error e, l)
  | .ok (reply, l') => (.ok reply, l')

end Ledger

end Mikaki.WorkCheckpoint
