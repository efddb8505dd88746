import Mikaki.Work.Disclosure

/-!
# Task repositories and code targets

Resource mappings the service resolves on its own: where a task may write, and
the exact upstream head an adoption would move.
-/

namespace Mikaki

open Checks

structure TaskRepository where
  owner : Id
  id : Id
  revision : Nat
  disclosure : Digest
  available : Bool
  preparedDisclosure : Option ResolvedDisclosure
  stored : 0 < revision ∧ revision ≤ maxStoredInteger

namespace TaskRepository

def fromAuthority (owner id : String) (revision : Nat) (disclosure : Digest) : Except Denied TaskRepository := do
  if stored : 0 < revision ∧ revision ≤ maxStoredInteger then
    let owner ← Id.parse owner
    let id ← Id.parse id
    return { owner, id, revision, disclosure, available := true, preparedDisclosure := none, stored }
  else .error .invalidInput

def retainOnly (self : TaskRepository) : TaskRepository := { self with available := false }

def checkRequest (self : TaskRepository) (request : WorkRequest) : Except Denied Unit := do
  denyIf (self.available = false) .staleAuthority
  denyIf (self.owner ≠ request.owner ∨ self.id.text ≠ request.input.taskRepository) .bindingMismatch
  let disclosure ← Digest.parseHex request.input.disclosureDigest
  denyIf (self.disclosure ≠ disclosure) .bindingMismatch
  match self.preparedDisclosure with
  | none => .ok ()
  | some disclosure => disclosure.checkRequestBinding request

def check (self : TaskRepository) (request : WorkRequest) : Except Denied Unit := self.checkRequest request

end TaskRepository

structure CodeTarget where
  owner : Id
  repository : Id
  reference : String
  head : String
  revision : Nat
  writable : Bool
  stored : 0 < revision ∧ revision ≤ maxStoredInteger
  branch : branchRef reference = .ok ()
  oid : gitOid head = .ok head

def CodeTarget.fromAuthority (owner repository reference head : String) (revision : Nat) (writable : Bool) :
    Except Denied CodeTarget := do
  if h : (0 < revision ∧ revision ≤ maxStoredInteger) ∧ branchRef reference = .ok () ∧ gitOid head = .ok head then
    let owner ← Id.parse owner
    let repository ← Id.parse repository
    return { owner, repository, reference, head, revision, writable, stored := h.1, branch := h.2.1, oid := h.2.2 }
  else .error .invalidInput

end Mikaki
