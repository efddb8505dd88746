import Mikaki.Checkpoint.Object
import Mikaki.Lib.Concurrent

/-!
# The clients of the checkpoint object

A client writes ahead: it takes a permit from the object, runs its statements
in one batch of the primary behind a compare-and-swap of the marker row, and
publishes the new marker to the object. Replies can be lost, a batch whose
reply was lost can still commit later, and the primary can be restored to any
earlier state.
-/

namespace Mikaki.WorkCheckpoint

open Checks Concurrent Concurrent.Prog

inductive StoreError where
  | invalidInput
  | staleAuthority
  | bindingMismatch
  | storage
  deriving DecidableEq, Repr

def release : Nat := 1

/-! ## The primary -/

/-- The primary database: the marker row and everything else. -/
structure Primary (β : Type) where
  marker : Checkpoint
  data : β

/-- The compare-and-swap of the marker, with its row count; the trigger aborts what is not one step. -/
def checkpointStep {β : Type} (p : Permit) (x : Primary β) : Option (Nat × Primary β) :=
  if x.marker = p.previous then
    if p.next.sequence ≠ x.marker.sequence + 1 ∨ p.next.tip = x.marker.tip then none
    else some (1, { x with marker := { x.marker with sequence := p.next.sequence, tip := p.next.tip } })
  else some (0, x)

/-- The compare-and-swap, the guard on its row count, and the statements; an abort undoes all of it. -/
def runBatch {β : Type} (p : Permit) (statements : β → Option β) (x : Primary β) : Option (Primary β) :=
  match checkpointStep p x with
  | some (1, x) => (statements x.data).map fun data => { x with data }
  | _ => none

/-- The fence is the compare-and-swap alone. -/
def runFence {β : Type} (p : Permit) (x : Primary β) : Option (Primary β) := (checkpointStep p x).map Prod.snd

/-! ## Requests -/

/-- The statements committed, were aborted by a constraint or a guard, or their outcome is not known. -/
inductive BatchReply where
  | committed
  | aborted
  | lost
  deriving DecidableEq, Repr

inductive Request (β : Type) where
  | opaqueId
  | readMarker
  | status
  | begin (expected : Checkpoint) (operation : String)
  | commit (permit : Permit) (observed : Checkpoint)
  | batch (permit : Permit) (statements : β → Option β)
  | fence (permit : Permit)

def Request.Reply {β : Type} : Request β → Type
  | opaqueId => String
  | readMarker => Except StoreError Checkpoint
  | status => Except StoreError State
  | begin _ _ => Except StoreError Permit
  | commit _ _ => Except StoreError Checkpoint
  | batch _ _ => BatchReply
  | fence _ => Except StoreError Unit

/-! ## `WorkStore` -/

abbrev Store (β : Type) := ExceptT StoreError (Prog (Request β) Request.Reply)

namespace WorkStore

variable {β : Type}

def opaqueId : Store β String := Prog.ask (.opaqueId : Request β)

def status : Store β State := Prog.query (.status : Request β) id

def begin (expected : Checkpoint) (operation : String) : Store β Permit :=
  Prog.query (.begin expected operation : Request β) id

def commit (p : Permit) (observed : Checkpoint) : Store β Checkpoint :=
  Prog.query (.commit p observed : Request β) id

def batch (p : Permit) (statements : β → Option β) : Store β BatchReply :=
  Prog.ask (.batch p statements : Request β)

def fence (p : Permit) : Store β Unit := Prog.query (.fence p : Request β) id

/-- `AuthorityCheckpoint::validate`. -/
def validateCheckpoint (c : Checkpoint) : Store β Unit := fails (c.valid = false) .invalidInput

/-- `Permit::validate`. -/
def validatePermit (p : Permit) : Store β Unit := do
  validateCheckpoint p.previous
  validateCheckpoint p.next
  fails (resource p.operation = false ∨ p.previous.authority ≠ p.next.authority ∨ p.previous.epoch ≠ p.next.epoch ∨
    p.previous.sequence + 1 ≠ p.next.sequence ∨ p.previous.tip = p.next.tip) .bindingMismatch

def readMarker : Store β Checkpoint := Prog.query (.readMarker : Request β) id

def primaryCheckpoint : Store β Checkpoint := do
  let c ← readMarker
  validateCheckpoint c
  return c

def currentAuthorityCheckpoint : Store β Checkpoint := do
  let c ← primaryCheckpoint
  let s ← status
  fails (s.frozen = true ∨ s.pending.isSome ∨ s.releaseFloor = 0 ∨ s.releaseFloor > release ∨ s.checkpoint ≠ c)
    .staleAuthority
  match s.last with
  | some last => validatePermit last
  | none => pure ()
  validateCheckpoint s.checkpoint
  return c

/-- What the settlement does with the marker that it read first. -/
def fenced (p : Permit) (definitiveAbort : Bool) (current : Checkpoint) : Store β Checkpoint := do
  if current = p.previous then
    -- An old marker after a lost result can also be a restored primary.
    fails (definitiveAbort = false) .staleAuthority
    fence p
    primaryCheckpoint
  else pure current

def settleCheckpoint (p : Permit) (definitiveAbort : Bool) : Store β Unit := do
  validatePermit p
  let current ← primaryCheckpoint
  let current ← fenced p definitiveAbort current
  fails (current ≠ p.next) .staleAuthority
  let committed ← commit p current
  fails (committed ≠ p.next) .bindingMismatch

def reconcileAuthorityCheckpoint : Store β Checkpoint := do
  let s ← status
  match s.pending with
  | some p => settleCheckpoint p false
  | none => pure ()
  currentAuthorityCheckpoint

/-- A permit for the marker as it is, after settling what another client left pending. -/
def retryBegin (beginError : StoreError) : Store β (Permit × Checkpoint × String) := do
  let state ← attempt status
  match state with
  | .error _ => throw beginError
  | .ok state =>
    match state.pending with
    | none => throw beginError
    | some pending =>
      settleCheckpoint pending false
      let expected ← currentAuthorityCheckpoint
      let operation ← opaqueId
      let p ← begin expected operation
      return (p, expected, operation)

def beginPermit : Store β (Permit × Checkpoint × String) := do
  let expected ← primaryCheckpoint
  let operation ← opaqueId
  let first ← attempt (begin expected operation)
  match first with
  | .ok p => return (p, expected, operation)
  | .error beginError => retryBegin beginError

def checkpointBatch (statements : β → Option β) : Store β Unit := do
  let (p, expected, operation) ← beginPermit
  validatePermit p
  fails (p.previous ≠ expected ∨ p.operation ≠ operation) .bindingMismatch
  let result ← batch p statements
  settleCheckpoint p (result == .aborted)
  match result with
  | .committed => pure ()
  | _ => throw .storage

end WorkStore

/-! ## The two stores -/

/-- A batch that was sent and whose reply was lost; a fence has no statements. -/
structure Flight (ι β : Type) where
  caller : ι
  permit : Permit
  statements : Option (β → Option β)

structure Commit (ι β : Type) where
  caller : ι
  permit : Permit
  statements : β → Option β
  before : β
  after : β

/-- The primary, the object and the batches under way, and beside them what has happened: every state the primary
was in, the commits, the fences that moved the marker, the permits the object committed, the restores, who drew which
operation identifier, and who read the marker while the primary was not behind the object. -/
structure Shared (ι β : Type) where
  primary : Primary β
  object : State
  flight : List (Flight ι β)
  snapshots : List (Primary β)
  commits : List (Commit ι β)
  fences : List Permit
  settled : List Permit
  restores : Nat
  operations : List (String × ι)
  soundReads : List ι

namespace Shared

variable {ι β : Type}

/-- The primary has been at the permit's next marker. -/
def Executed (s : Shared ι β) (p : Permit) : Prop := ∃ x ∈ s.snapshots, x.marker = p.next

/-- The primary is behind the object: before its checkpoint, or before a pending permit whose marker it had. -/
def Quarantined (s : Shared ι β) : Prop :=
  s.primary.marker.sequence < s.object.checkpoint.sequence ∨
    ∃ p, s.object.pending = some p ∧ s.primary.marker = p.previous ∧ s.Executed p

/-- The primary moves to another state. -/
def move (s : Shared ι β) (x : Primary β) : Shared ι β := { s with primary := x, snapshots := x :: s.snapshots }

def commitBatch (s : Shared ι β) (i : ι) (p : Permit) (statements : β → Option β) (x : Primary β) : Shared ι β :=
  { s.move x with commits := s.commits ++ [⟨i, p, statements, s.primary.data, x.data⟩] }

open Classical in
noncomputable def commitFence (s : Shared ι β) (p : Permit) (x : Primary β) : Shared ι β :=
  if x.marker = s.primary.marker then s else { s.move x with fences := p :: s.fences }

end Shared

section
variable {ι β : Type} (authority : String)

/-- How a request of caller `i` is answered. -/
inductive Exec (i : ι) (s : Shared ι β) : (r : Request β) → r.Reply → Shared ι β → Prop
  | opaqueId (operation : String) (h : ∀ j, (operation, j) ∉ s.operations) :
      Exec i s .opaqueId operation { s with operations := (operation, i) :: s.operations }
  | readSound (h : ¬s.Quarantined) :
      Exec i s .readMarker (.ok s.primary.marker) { s with soundReads := i :: s.soundReads }
  | readBehind (h : s.Quarantined) : Exec i s .readMarker (.ok s.primary.marker) s
  | readFails (e : StoreError) : Exec i s .readMarker (.error e) s
  | status (h : s.object.current release = .ok ()) : Exec i s .status (.ok s.object) s
  | statusFails (e : StoreError) : Exec i s .status (.error e) s
  | begin {expected : Checkpoint} {operation tip : String} {p : Permit} {o : State}
      (h : s.object.begin authority expected operation release tip = .ok (p, o)) :
      Exec i s (.begin expected operation) (.ok p) { s with object := o }
  | beginLost {expected : Checkpoint} {operation tip : String} {p : Permit} {o : State} (e : StoreError)
      (h : s.object.begin authority expected operation release tip = .ok (p, o)) :
      Exec i s (.begin expected operation) (.error e) { s with object := o }
  | beginFails {expected : Checkpoint} {operation : String} (e : StoreError) :
      Exec i s (.begin expected operation) (.error e) s
  | commit {p : Permit} {observed c : Checkpoint} {o : State} (h : s.object.commit p observed release = .ok (c, o)) :
      Exec i s (.commit p observed) (.ok c) { s with object := o, settled := p :: s.settled }
  | commitLost {p : Permit} {observed c : Checkpoint} {o : State} (e : StoreError)
      (h : s.object.commit p observed release = .ok (c, o)) :
      Exec i s (.commit p observed) (.error e) { s with object := o, settled := p :: s.settled }
  | commitFails {p : Permit} {observed : Checkpoint} (e : StoreError) : Exec i s (.commit p observed) (.error e) s
  | batch {p : Permit} {statements : β → Option β} {x : Primary β} (h : runBatch p statements s.primary = some x) :
      Exec i s (.batch p statements) .committed (s.commitBatch i p statements x)
  | batchAborted {p : Permit} {statements : β → Option β} (h : runBatch p statements s.primary = none) :
      Exec i s (.batch p statements) .aborted s
  | batchLost {p : Permit} {statements : β → Option β} {x : Primary β} (h : runBatch p statements s.primary = some x) :
      Exec i s (.batch p statements) .lost (s.commitBatch i p statements x)
  | batchFlies {p : Permit} {statements : β → Option β} :
      Exec i s (.batch p statements) .lost { s with flight := ⟨i, p, some statements⟩ :: s.flight }
  | fence {p : Permit} {x : Primary β} (h : runFence p s.primary = some x) :
      Exec i s (.fence p) (.ok ()) (s.commitFence p x)
  | fenceLost {p : Permit} {x : Primary β} (e : StoreError) (h : runFence p s.primary = some x) :
      Exec i s (.fence p) (.error e) (s.commitFence p x)
  | fenceFlies {p : Permit} (e : StoreError) : Exec i s (.fence p) (.error e) { s with flight := ⟨i, p, none⟩ :: s.flight }

/-- The steps that no client makes: what was sent earlier arrives or is given up, the operator raises the floor or
freezes the object, and the primary is restored. -/
inductive Env (s : Shared ι β) : Shared ι β → Prop
  | lateBatch {f : Flight ι β} {before after : List (Flight ι β)} {statements : β → Option β} {x : Primary β}
      (hf : s.flight = before ++ f :: after) (hs : f.statements = some statements)
      (h : runBatch f.permit statements s.primary = some x) :
      Env s { s.commitBatch f.caller f.permit statements x with flight := before ++ after }
  | lateFence {f : Flight ι β} {before after : List (Flight ι β)} {x : Primary β}
      (hf : s.flight = before ++ f :: after) (hs : f.statements = none) (h : runFence f.permit s.primary = some x) :
      Env s { s.commitFence f.permit x with flight := before ++ after }
  | givenUp {f : Flight ι β} {before after : List (Flight ι β)} (hf : s.flight = before ++ f :: after) :
      Env s { s with flight := before ++ after }
  | raiseFloor {value : Nat} {o : State} (h : s.object.raiseFloor value = .ok o) : Env s { s with object := o }
  | freeze : Env s { s with object := s.object.freeze }
  | restore {x : Primary β} (h : x ∈ s.snapshots) : Env s { s with primary := x, restores := s.restores + 1 }

def world : World ι (Shared ι β) (Request β) Request.Reply := ⟨fun i r s x s' => Exec authority i s r x s', Env⟩

/-- What a call returns when it succeeds. -/
inductive Outcome (β : Type) where
  | batch (statements : β → Option β)
  | checkpoint (c : Checkpoint)

/-- The calls that a client makes. -/
inductive Entry : Prog (Request β) Request.Reply (Except StoreError (Outcome β)) → Prop
  | batch (statements : β → Option β) : Entry (do
      WorkStore.checkpointBatch statements
      return Outcome.batch statements : Store β (Outcome β)).run
  | reconcile : Entry (do
      let c ← WorkStore.reconcileAuthorityCheckpoint
      return Outcome.checkpoint c : Store β (Outcome β)).run
  | current : Entry (do
      let c ← WorkStore.currentAuthorityCheckpoint
      return Outcome.checkpoint c : Store β (Outcome β)).run

/-- An authority that has just been enrolled: the marker is the object's checkpoint and nothing has happened. -/
def Shared.enrolled (x : Primary β) (releaseFloor : Nat) : Shared ι β :=
  { primary := x
    object := { checkpoint := x.marker, pending := none, last := none, releaseFloor, frozen := false }
    flight := [], snapshots := [x], commits := [], fences := [], settled := [], restores := 0, operations := []
    soundReads := [] }

end

end Mikaki.WorkCheckpoint
