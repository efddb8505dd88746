import Mikaki.Checkpoint.Protocol

/-!
# The checkpoint object

One durable object keeps the latest checkpoint of the authority, the permit
that a client holds, the last permit it committed, the release floor and
whether it is frozen. Each call is one storage transaction.
-/

namespace Mikaki.WorkCheckpoint

open Checks

structure State where
  checkpoint : Checkpoint
  pending : Option Permit
  last : Option Permit
  releaseFloor : Nat
  frozen : Bool
  deriving DecidableEq, Repr

/-- `bootstrap`, of an object that holds nothing. -/
def State.bootstrap (authority : String) (initial : Checkpoint) (releaseFloor : Nat) : Except Fault State := do
  initial.check
  denyIf (initial.authority ≠ authority ∨ initial.sequence ≠ 0 ∨ integer releaseFloor = false ∨ releaseFloor < 1)
    .checkpointInvalid
  return { checkpoint := initial, pending := none, last := none, releaseFloor, frozen := false }

namespace State

def current (s : State) (release : Nat) : Except Fault Unit :=
  denyIf (integer release = false ∨ release < s.releaseFloor ∨ s.frozen = true) .checkpointBlocked

/-- The permit that `begin` makes; the tip is the value of `random()`. -/
def permitFor (expected : Checkpoint) (operation tip : String) : Permit :=
  { operation, previous := expected, next := { expected with sequence := expected.sequence + 1, tip } }

def begin (authority : String) (s : State) (expected : Checkpoint) (operation : String) (release : Nat) (tip : String) :
    Except Fault (Permit × State) := do
  expected.check
  denyIf (resource operation = false) .checkpointInvalid
  s.current release
  match s.pending with
  | some p => if p.operation = operation ∧ p.previous = expected then return (p, s) else .error .checkpointPending
  | none =>
    denyIf (s.checkpoint ≠ expected ∨ expected.authority ≠ authority ∨ expected.sequence = maxSafeInteger)
      .checkpointMismatch
    return (permitFor expected operation tip, { s with pending := some (permitFor expected operation tip) })

def commit (s : State) (plan : Permit) (observed : Checkpoint) (release : Nat) : Except Fault (Checkpoint × State) := do
  plan.check
  observed.check
  s.current release
  denyIf (observed ≠ plan.next) .checkpointMismatch
  match s.pending with
  | none => if s.last = some plan ∧ s.checkpoint = plan.next then return (s.checkpoint, s) else .error .checkpointMismatch
  | some p =>
    denyIf (p ≠ plan) .checkpointMismatch
    return (plan.next, { s with checkpoint := plan.next, last := some plan, pending := none })

def raiseFloor (s : State) (value : Nat) : Except Fault State := do
  denyIf (integer value = false ∨ value < 1) .checkpointInvalid
  denyIf (value < s.releaseFloor) .checkpointDowngrade
  return { s with releaseFloor := value }

def freeze (s : State) : State := { s with frozen := true }

end State

end Mikaki.WorkCheckpoint
