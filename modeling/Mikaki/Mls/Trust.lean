import Mikaki.Lib.Checks
import Mikaki.Lib.Json
import Mikaki.Lib.Rows

/-!
# Pinned devices

Bindings of device keys that a pinned issuer signed, and the store of the
devices that were confirmed by hand. What the store does not compute itself
(base64url, SHA-256, Ed25519, the parsing of a URL and of the JSON of a token)
is a parameter, `Primitives`. A call that fails keeps what it did before the
failure, which is the time it recorded.
-/

namespace Mikaki.Mls

open Checks

def bindingType : String := "mikaki-device-binding+jwt"
def audience : String := "mikaki-mls-device-v1"
def maxSafe : Nat := 9007199254740991

abbrev Result := Except String

structure DeviceIdentity where
  issuer : String
  accountId : String
  deviceId : String
  generation : Nat
  deriving DecidableEq

inductive Status where
  | active
  | revoked
  deriving DecidableEq

inductive Observation where
  | current
  | keyChanged
  | revoked
  | registryConflict
  deriving DecidableEq

structure Authority where
  issuer : String
  publicKey : String
  deriving DecidableEq

structure Binding where
  iss : String
  aud : String
  device : DeviceIdentity
  publicKey : String
  revision : Nat
  status : Status
  iat : Nat
  exp : Nat
  deriving DecidableEq

structure Header where
  typ : String
  alg : String
  kid : String
  deriving DecidableEq

class Primitives where
  /-- Base64url without padding. -/
  decode64 : String → Option (List UInt8)
  encode64 : List UInt8 → String
  sha256 : List UInt8 → List UInt8
  /-- Ed25519: input, key, signature. -/
  verifySignature : String → List UInt8 → List UInt8 → Bool
  /-- The scheme and the serialised origin of a URL. -/
  origin : String → Option (String × String)
  header : List UInt8 → Option Header
  binding : List UInt8 → Option Binding

/-! ## Identities -/

def uuidByte (i : Nat) (b : UInt8) : Bool :=
  match i with
  | 8 | 13 | 18 | 23 => b == 45
  | 14 => b == 52
  | 19 => b == 56 || b == 57 || b == 97 || b == 98
  | _ => (48 ≤ b && b ≤ 57) || (97 ≤ b && b ≤ 102)

def uuid (value : String) : Bool :=
  value.utf8ByteSize == 36 && (Text.bytes value).zipIdx.all fun p => uuidByte p.2 p.1

section
variable [Primitives]

def issuer (value : String) : Result Unit := do
  match Primitives.origin value with
  | none => throw "invalid_issuer"
  | some (scheme, origin) =>
    denyIf (value.utf8ByteSize > 256 ∨ (Text.bytes value).all (· < 128) = false ∨ scheme ≠ "https" ∨ origin ≠ value)
      "invalid_issuer"

namespace DeviceIdentity

def validate (self : DeviceIdentity) : Result Unit := do
  Mls.issuer self.issuer
  denyIf (uuid self.accountId = false ∨ uuid self.deviceId = false ∨ ¬(1 ≤ self.generation ∧ self.generation ≤ maxSafe))
    "invalid_device_identity"

def slot (self : DeviceIdentity) : String × String × String := (self.issuer, self.accountId, self.deviceId)

def toJson (self : DeviceIdentity) : Json.Value :=
  .obj [("issuer", .str self.issuer), ("account_id", .str self.accountId), ("device_id", .str self.deviceId),
    ("generation", .num self.generation)]

end DeviceIdentity

/-- `decode`. -/
def decode (value : String) : Result (List UInt8) :=
  match Primitives.decode64 value with
  | none => .error "invalid_base64url"
  | some bytes => if bytes = [] ∨ Primitives.encode64 bytes ≠ value then .error "invalid_base64url" else .ok bytes

def keyId (publicKey : List UInt8) : String := Primitives.encode64 (Primitives.sha256 publicKey)

def fingerprint (identity : DeviceIdentity) (publicKey : List UInt8) : Result String := do
  identity.validate
  denyIf (publicKey.length ≠ 32) "invalid_device_key"
  let bytes := Text.bytes (Json.Value.render (.arr [.str "mikaki-device-fingerprint-v1", identity.toJson, .str "Ed25519",
    .str (Primitives.encode64 publicKey)]))
  return Primitives.encode64 (Primitives.sha256 bytes)

/-- The fingerprint that a person compares. -/
def Binding.fingerprint (self : Binding) : Result String := do
  let key ← decode self.publicKey
  Mls.fingerprint self.device key

/-! ## Tokens -/

/-- `jwt`, for a binding: the header, the payload, what was signed and the signature. -/
def jwt (token typ : String) : Result (Header × Binding × String × List UInt8) := do
  denyIf (token = "" ∨ token.utf8ByteSize > 8192) "invalid_token_size"
  match token.splitOn "." with
  | [header, payload, signature] =>
    let input := header ++ "." ++ payload
    let some header := Primitives.header (← decode header) | throw "invalid_header"
    denyIf (header.alg ≠ "EdDSA" ∨ header.typ ≠ typ) "invalid_header"
    let some payload := Primitives.binding (← decode payload) | throw "invalid_claims"
    let signature ← decode signature
    denyIf (signature.length ≠ 64) "invalid_signature"
    return (header, payload, input, signature)
  | _ => throw "invalid_token"

def lifetime (iat exp now max : Nat) : Result Unit :=
  denyIf (now > maxSafe ∨ iat > now ∨ exp ≤ now ∨ exp > maxSafe ∨ exp ≤ iat ∨ exp - iat > max) "binding_not_current"

end

/-! ## The store -/

structure Pin where
  accepted : Binding
  latest : Binding
  reviewRequired : Bool
  deriving DecidableEq

def Pin.slot (self : Pin) : String × String × String := self.accepted.device.slot

structure TrustStore where
  authorities : List Authority
  pins : List Pin
  lastTime : Nat
  unconfirmedRevocations : List Binding

namespace TrustStore

/-- The store without a pin; `new` checks the authorities first. -/
def start (authorities : List Authority) : TrustStore :=
  { authorities, pins := [], lastTime := 0, unconfirmedRevocations := [] }

def pin (self : TrustStore) (slot : String × String × String) : Option Pin := Rows.lookup Pin.slot slot self.pins

section
variable [Primitives]

def new (authorities : List Authority) : Result TrustStore := do
  denyIf (authorities = [] ∨ authorities.length > 8) "invalid_authorities"
  checkAll authorities.zipIdx fun a => do
    issuer a.1.issuer
    let key ← decode a.1.publicKey
    denyIf (key.length ≠ 32 ∨ ∃ b ∈ authorities.take a.2, b.issuer = a.1.issuer) "invalid_authorities"
  return start authorities

def verify (self : TrustStore) (token : String) (now : Nat) : Result Binding := do
  let (header, binding, input, signature) ← jwt token bindingType
  binding.device.validate
  denyIf (binding.iss ≠ binding.device.issuer ∨ binding.aud ≠ audience ∨
    ¬(1 ≤ binding.revision ∧ binding.revision ≤ maxSafe)) "invalid_binding"
  let key ← decode binding.publicKey
  denyIf (key.length ≠ 32) "invalid_binding"
  let some authority := self.authorities.find? (·.issuer = binding.iss) | throw "untrusted_issuer"
  let key ← decode authority.publicKey
  denyIf (header.kid ≠ keyId key) "untrusted_issuer_key"
  denyIf (Primitives.verifySignature input key signature = false) "invalid_signature"
  lifetime binding.iat binding.exp now 300
  return binding

end

/-- Record the time, then run `f`, which changes nothing where it fails. -/
def timed {α : Type} (self : TrustStore) (now : Nat) (f : TrustStore → Result (α × TrustStore)) : Result α × TrustStore :=
  if now < self.lastTime ∨ now > maxSafe then (.error "clock_rollback", self)
  else
    let self := { self with lastTime := now }
    match f self with
    | .error e => (.error e, self)
    | .ok (a, self) => (.ok a, self)

def time (self : TrustStore) (now : Nat) : Result Unit × TrustStore := self.timed now fun self => .ok ((), self)

def setPin (self : TrustStore) (p : Pin) : TrustStore := { self with pins := Rows.setFirst Pin.slot p self.pins }

def checkUnconfirmedRevocation (self : TrustStore) (binding : Binding) : Result Unit :=
  denyIf (∃ old ∈ self.unconfirmedRevocations, old.device.slot = binding.device.slot ∧
    (binding.device.generation ≤ old.device.generation ∨ binding.publicKey = old.publicKey)) "device_revoked"

def current (pin : Pin) (now : Nat) : Result Unit := do
  denyIf (pin.latest.status = .revoked) "device_revoked"
  denyIf (pin.reviewRequired = true ∨ pin.latest.device ≠ pin.accepted.device ∨
    pin.latest.publicKey ≠ pin.accepted.publicKey) "device_key_changed"
  lifetime pin.latest.iat pin.latest.exp now 300

/-! ## The calls -/

section
variable [Primitives]

def confirm (self : TrustStore) (token expected : String) (now : Nat) : Result Unit × TrustStore :=
  self.timed now fun self => do
    let binding ← self.verify token now
    denyIf (binding.status ≠ .active) "device_revoked"
    self.checkUnconfirmedRevocation binding
    let fingerprint ← binding.fingerprint
    denyIf (fingerprint ≠ expected) "fingerprint_mismatch"
    denyIf (∃ p ∈ self.pins, p.slot = binding.device.slot) "device_already_pinned"
    denyIf (self.pins.length ≥ 2) "probe_is_one_to_one"
    return ((), { self with pins := self.pins ++ [{ accepted := binding, latest := binding, reviewRequired := false }] })

/-- Retain a verified denial without turning an unconfirmed device into a pin. -/
def reviewUnconfirmed (self : TrustStore) (token : String) (now : Nat) : Result String × TrustStore :=
  self.timed now fun self => do
    let binding ← self.verify token now
    if binding.status = .revoked then
      if ∃ old ∈ self.unconfirmedRevocations, old.device = binding.device ∧ old.publicKey = binding.publicKey then
        return ("revoked", self)
      else
        denyIf (self.unconfirmedRevocations.length ≥ 8) "revocation_ledger_full"
        return ("revoked", { self with unconfirmedRevocations := self.unconfirmedRevocations ++ [binding] })
    else
      self.checkUnconfirmedRevocation binding
      return ("unconfirmed", self)

/-- What an observation makes of the pin of its slot. -/
def observed (pin : Pin) (binding : Binding) : Result (Observation × Pin) := do
  denyIf (binding.revision < pin.latest.revision ∨ binding.device.generation < pin.latest.device.generation ∨
    binding.iat < pin.latest.iat) "stale_binding"
  if binding.revision = pin.latest.revision ∧ (binding.device ≠ pin.latest.device ∨
      binding.publicKey ≠ pin.latest.publicKey ∨ binding.status ≠ pin.latest.status) then
    return (.registryConflict, { pin with reviewRequired := true })
  else
    denyIf (pin.latest.status = .revoked ∧ binding.status = .active ∧
      binding.device.generation ≤ pin.latest.device.generation) "device_revoked"
    let review : Bool := pin.reviewRequired || decide (binding.device ≠ pin.accepted.device ∨
      binding.publicKey ≠ pin.accepted.publicKey)
    let pin : Pin := { pin with reviewRequired := review, latest := binding }
    return (if binding.status = .revoked then .revoked else if review then .keyChanged else .current, pin)

/-- Even a signed key replacement freezes the old pin until explicit review. -/
def observe (self : TrustStore) (token : String) (now : Nat) : Result Observation × TrustStore :=
  self.timed now fun self => do
    let binding ← self.verify token now
    let some pin := self.pin binding.device.slot | throw "first_trust_required"
    let (observation, pin) ← observed pin binding
    return (observation, self.setPin pin)

def acceptChange (self : TrustStore) (token old new : String) (now : Nat) : Result Unit × TrustStore :=
  self.timed now fun self => do
    let binding ← self.verify token now
    let some pin := self.pin binding.device.slot | throw "first_trust_required"
    let before ← pin.accepted.fingerprint
    denyIf (before ≠ old) "fingerprint_mismatch"
    let after ← binding.fingerprint
    denyIf (after ≠ new) "fingerprint_mismatch"
    denyIf (binding.status ≠ .active ∨ binding.device.generation ≤ pin.accepted.device.generation ∨
      binding.device.generation < pin.latest.device.generation ∨ binding.revision ≤ pin.accepted.revision ∨
      binding.revision < pin.latest.revision ∨ binding.iat < pin.latest.iat ∨
      binding.publicKey = pin.accepted.publicKey ∨
      (pin.latest.status = .revoked ∧ binding.device.generation ≤ pin.latest.device.generation) ∨
      (binding.revision = pin.latest.revision ∧ binding ≠ pin.latest)) "invalid_key_change"
    return ((), self.setPin { accepted := binding, latest := binding, reviewRequired := false })

def check (self : TrustStore) (identity : DeviceIdentity) (key : List UInt8) (now : Nat) : Result Unit := do
  denyIf (now < self.lastTime) "clock_rollback"
  let some pin := self.pin identity.slot | throw "first_trust_required"
  current pin now
  denyIf (pin.accepted.device ≠ identity) "device_key_mismatch"
  let pinned ← decode pin.accepted.publicKey
  denyIf (pinned ≠ key) "device_key_mismatch"

end

end TrustStore

/-! ## Sequences of calls -/

inductive Call where
  | confirm (token expected : String) (now : Nat)
  | reviewUnconfirmed (token : String) (now : Nat)
  | observe (token : String) (now : Nat)
  | acceptChange (token old new : String) (now : Nat)
  | time (now : Nat)
  | check (identity : DeviceIdentity) (key : List UInt8) (now : Nat)

inductive Reply where
  | done
  | review (text : String)
  | observation (o : Observation)
  deriving DecidableEq

def replying {α : Type} (f : α → Reply) (x : Result α × TrustStore) : Result Reply × TrustStore :=
  match x with
  | (.ok a, s) => (.ok (f a), s)
  | (.error e, s) => (.error e, s)

def step [Primitives] (c : Call) (s : TrustStore) : Result Reply × TrustStore :=
  match c with
  | .confirm token expected now => replying (fun _ => .done) (s.confirm token expected now)
  | .reviewUnconfirmed token now => replying .review (s.reviewUnconfirmed token now)
  | .observe token now => replying .observation (s.observe token now)
  | .acceptChange token old new now => replying (fun _ => .done) (s.acceptChange token old new now)
  | .time now => replying (fun _ => .done) (s.time now)
  | .check identity key now => replying (fun _ => .done) (s.check identity key now, s)

end Mikaki.Mls
