import Mikaki.Lib.Checks
import Mikaki.Lib.Sha
import Mikaki.Lib.Text

/-!
# Managed work: identifiers, digests, owner and environment

A `u64` is a natural number here: every number that reaches storage is checked
against `maxStoredInteger`, and the one addition that could overflow
(`checkedAdd`) is checked where the source checks it. SHA-256 and SHA-1 come
from crates and are a parameter, `Hashes`.
-/

namespace Mikaki

open Checks

def profile : String := "mikaki-managed-work-v1"
def submit : String := "repo.proposal.submit"
def adoptCode : String := "repo.change.adopt"
def maxWorkSeconds : Nat := 3600
def maxApprovalSeconds : Nat := 300
def maxStoredInteger : Nat := 9007199254740991

inductive Denied where
  | invalidInput
  | unsupportedAction
  | ownerMismatch
  | inactiveOwner
  | expired
  | reviewMismatch
  | bindingMismatch
  | staleRequest
  | stalePolicy
  | staleTarget
  | staleAuthority
  | revoked
  | invalidTransition
  | conflict
  | capacityExceeded
  deriving DecidableEq, Repr

/-- `u64::checked_add(1)`. -/
def checkedSucc (n : Nat) : Option Nat := if n + 1 < 2 ^ 64 then some (n + 1) else none

/-! ## Digests -/

/-- A public digest or key thumbprint. -/
structure Digest where
  bytes : List UInt8
  size : bytes.length = 32
  deriving DecidableEq

/-- The hash functions of the crates `sha2` and `sha1`. -/
class Hashes where
  sha256 : List UInt8 → Digest
  sha1 : List UInt8 → Vector UInt8 20

export Hashes (sha256 sha1)

/-- The hash functions themselves. -/
instance (priority := low) shaHashes : Hashes where
  sha256 m := ⟨Sha.sha256 m, Sha.length_sha256 m⟩
  sha1 m := ⟨(Sha.sha1 m).toArray, Sha.length_sha1 m⟩

def hexNibble (n : Nat) : Char := Char.ofNat (if n < 10 then 48 + n else 87 + n)

/-- `format!("{b:02x}")` of each byte. -/
def hexChars (bs : List UInt8) : List Char := bs.flatMap fun b => [hexNibble (b.toNat / 16), hexNibble (b.toNat % 16)]

def hex (bs : List UInt8) : String := String.ofList (hexChars bs)

def lowerHex (value : String) : Bool := (Text.bytes value).all Text.isLowerHex

/-- The value of a lowercase hex digit. -/
def nibble (b : UInt8) : Nat := if b ≤ 57 then b.toNat - 48 else b.toNat - 87

/-- Bytes from pairs of hex digits; an odd last digit is dropped. -/
def pairs : List UInt8 → List UInt8
  | a :: b :: rest => UInt8.ofNat (nibble a * 16 + nibble b) :: pairs rest
  | _ => []

theorem length_pairs : ∀ (n : Nat) (l : List UInt8), l.length = 2 * n → (pairs l).length = n
  | 0, [], _ => rfl
  | n + 1, a :: b :: l, h => by
    simp only [pairs, List.length_cons, length_pairs n l (by simp only [List.length_cons] at h; omega)]
  | 0, _ :: _, h => by simp at h
  | n + 1, [], h => by simp at h
  | n + 1, [_], h => by simp only [List.length_cons, List.length_nil] at h; omega

def Digest.toHex (d : Digest) : String := hex d.bytes

def Digest.parseHex (value : String) : Except Denied Digest :=
  if h : (Text.bytes value).length = 64 then
    if lowerHex value then .ok ⟨pairs (Text.bytes value), length_pairs 32 _ h⟩ else .error .invalidInput
  else .error .invalidInput

/-! ## Identifiers -/

def Id.shape (value : String) : Bool :=
  value.utf8ByteSize != 0 && value.utf8ByteSize ≤ 128 &&
    (Text.bytes value).all fun b => Text.isAlphanumeric b || (Text.bytes "-_.:").contains b

/-- A checked identifier. -/
structure Id where
  text : String
  valid : Id.shape text = true
  deriving DecidableEq

def Id.parse (value : String) : Except Denied Id :=
  if h : Id.shape value = true then .ok ⟨value, h⟩ else .error .invalidInput

/-- `Id::parse` for its error only. -/
def Id.check (value : String) : Except Denied Unit := do
  let _ ← Id.parse value
  return ()

/-! ## Shared checks -/

def storedNumber (value : Nat) (zeroAllowed : Bool) : Except Denied Unit :=
  denyIf (value > maxStoredInteger ∨ (zeroAllowed = false ∧ value = 0)) .invalidInput

def gitOid (value : String) : Except Denied String := do
  denyIf (¬(value.utf8ByteSize = 40 ∨ value.utf8ByteSize = 64) ∨ lowerHex value = false) .invalidInput
  return value

def deadline (now expires maximum : Nat) : Except Denied Unit := do
  storedNumber now true
  storedNumber expires false
  denyIf (expires ≤ now ∨ expires - now > maximum) .expired

/-! ## Hash framing: `Hash::bytes`, `Hash::text` and `Hash::number` -/

namespace Hash

def bytes (value : List UInt8) : List UInt8 := Framing.counted value
def text (value : String) : List UInt8 := bytes (Text.bytes value)
def number (value : Nat) : List UInt8 := Framing.be64 value
def digest (value : Digest) : List UInt8 := bytes value.bytes
/-- The domain tag every preimage starts with. -/
def new (domain : String) : List UInt8 := text domain

end Hash

/-! ## Owner, session and environment -/

structure OwnerState where
  id : Id
  epoch : Nat
  active : Bool
  stored : epoch ≤ maxStoredInteger

def OwnerState.fromAuthority (id : String) (epoch : Nat) (active : Bool) : Except Denied OwnerState := do
  let id ← Id.parse id
  if stored : epoch ≤ maxStoredInteger then return { id, epoch, active, stored } else .error .invalidInput

structure OwnerSession where
  id : Id
  epoch : Nat
  expiresAt : Nat
  stored : epoch ≤ maxStoredInteger ∧ 0 < expiresAt ∧ expiresAt ≤ maxStoredInteger

def OwnerSession.fromVerifiedSession (id : String) (epoch expiresAt : Nat) : Except Denied OwnerSession := do
  let id ← Id.parse id
  if stored : epoch ≤ maxStoredInteger ∧ 0 < expiresAt ∧ expiresAt ≤ maxStoredInteger then
    return { id, epoch, expiresAt, stored }
  else .error .invalidInput

/-- Primary owner state, authoritative policy revision and service time. -/
structure Environment where
  owner : OwnerState
  policyRevision : Nat
  now : Nat

def Environment.checkOwner (self : Environment) (id : Id) (epoch : Nat) : Except Denied Unit := do
  storedNumber self.policyRevision false
  storedNumber self.now true
  denyIf (self.owner.id ≠ id) .ownerMismatch
  denyIf (self.owner.active = false) .inactiveOwner
  denyIf (self.owner.epoch ≠ epoch) .staleAuthority

def OwnerSession.check (self : OwnerSession) (environment : Environment) : Except Denied Unit := do
  environment.checkOwner self.id self.epoch
  denyIf (environment.now ≥ self.expiresAt) .expired

end Mikaki
