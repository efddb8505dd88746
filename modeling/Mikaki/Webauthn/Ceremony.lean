import Mikaki.Lib.Checks
import Mikaki.Lib.Sha
import Mikaki.Lib.Text
import Mikaki.Vault.Http

/-!
# WebAuthn ceremonies

The verification of a registration and of an assertion. Base64url, JSON, CBOR,
COSE keys and attestation statements are parameters.
-/

namespace Mikaki.Webauthn

open Checks
open Mikaki.Vault (Base64 encode64 decode64)

inductive Invalid where
  | configuration
  | input
  | limit
  | clientDataType
  | challenge
  | origin
  | rpId
  | userPresence
  | userVerification
  | credential
  | userHandle
  | allowList
  | backup
  | counter
  | publicKey
  | algorithm
  | signature
  | extensions
  | attestation
  | ceremonyPurpose
  | browser
  | ceremonyExpired
  | ceremonyConsumed
  | ceremonyAttempts
  deriving DecidableEq

inductive UserVerification where
  | required
  | preferred
  | discouraged
  deriving DecidableEq

inductive Authentication where
  | discoverable
  | identified (userHandle : String) (allowedCredentials : List String)
  deriving DecidableEq

structure Context where
  challenge : String
  origin : String
  rpId : String
  maxBytes : Nat
  maxDepth : Nat
  userVerification : UserVerification
  authentication : Authentication
  algorithms : List Int
  deriving DecidableEq

/-- `tokenBinding`: whether it is present, and its id. -/
structure TokenBinding where
  isPresent : Bool
  id : Option String
  deriving DecidableEq

structure ClientData where
  kind : String
  challenge : String
  origin : String
  crossOrigin : Bool
  topOrigin : Option String
  tokenBinding : Option TokenBinding
  deriving DecidableEq

structure Registration where
  id : String
  clientData : String
  attestation : String
  deriving DecidableEq

structure Assertion where
  id : String
  clientData : String
  authenticatorData : String
  signature : String
  userHandle : Option String
  deriving DecidableEq

structure StoredCredential where
  id : String
  publicKey : String
  userHandle : String
  counter : Nat
  backupEligible : Bool
  deriving DecidableEq

structure VerifiedRegistration where
  id : String
  publicKey : String
  counter : Nat
  backupEligible : Bool
  backupState : Bool
  userVerified : Bool
  deriving DecidableEq

structure VerifiedAssertion where
  counter : Nat
  backupState : Bool
  userVerified : Bool
  deriving DecidableEq

/-- A CBOR value, as far as the ceremonies read it. -/
inductive Value where
  | text (s : String)
  | bytes (b : List UInt8)
  | map (entries : List (Value × Value))
  | other

/-- A COSE key. -/
structure PublicKey where
  algorithm : Int
  key : List UInt8
  deriving DecidableEq

class Formats extends Base64 where
  /-- UTF-8, strict JSON and the members, under the limits on size and depth. -/
  clientData : Nat → Nat → List UInt8 → Except Invalid ClientData
  /-- A value of bounded depth and unique keys, and how many bytes it takes. -/
  cbor : List UInt8 → Nat → Except Invalid (Value × Nat)
  publicKey : Value → Except Invalid PublicKey
  /-- The signature of a message. -/
  verify : PublicKey → List UInt8 → List UInt8 → Except Invalid Unit
  /-- The statement of an attestation object about its data, the client data, the key and the credential. -/
  attestation : Context → Value → List UInt8 → List UInt8 → PublicKey → List UInt8 → Except Invalid Unit

def supportedAlgorithms : List Int := [-7, -8, -257, -65535, -37, -38, -39, -258, -259, -35, -36, -47]

/-- Some text is left by `trim`, and it is the whole. -/
def trimmed (s : String) : Bool :=
  s ≠ "" && (s.toList.head?.all fun c => !Text.isWhiteSpace c) && s.toList.getLast?.all fun c => !Text.isWhiteSpace c

/-- `value.ok_or(e)?`. -/
def orElse {α : Type} (e : Invalid) : Option α → Except Invalid α
  | some a => .ok a
  | none => .error e

/-- The counter, whether the credential may be backed up, and whether it is. -/
def header (bytes : List UInt8) : Nat × Bool × Bool :=
  (((bytes.drop 33).take 4).foldl (fun n b => 256 * n + b.toNat) 0, bytes.getD 32 0 &&& 8 ≠ 0, bytes.getD 32 0 &&& 16 ≠ 0)

def authHeader (ctx : Context) (bytes : List UInt8) (registration : Bool) : Except Invalid (Nat × Bool × Bool) := do
  denyIf (bytes.length < 37 ∨ ctx.maxBytes < bytes.length) .input
  denyIf (bytes.take 32 ≠ Sha.sha256 (Text.bytes ctx.rpId)) .rpId
  let flags := bytes.getD 32 0
  denyIf (flags &&& 1 = 0) .userPresence
  denyIf (flags &&& 0x22 ≠ 0) .input
  denyIf (ctx.userVerification = .required ∧ flags &&& 4 = 0) .userVerification
  denyIf (decide (flags &&& 0x40 ≠ 0) ≠ registration) .input
  let (counter, be, bs) := header bytes
  denyIf (bs = true ∧ be = false) .backup
  return (counter, be, bs)

section
variable [Formats]

/-- Canonical base64url of at most `limit` bytes. -/
def decode (s : String) (limit : Nat) : Except Invalid (List UInt8) := do
  denyIf ((limit * 4 + 2) / 3 < s.utf8ByteSize) .limit
  let bytes ← orElse .input (decode64 s)
  denyIf (limit < bytes.length) .limit
  denyIf (encode64 bytes ≠ s) .input
  return bytes

def validId (value : String) (limit : Nat) : Bool :=
  match decode value limit with
  | .ok bytes => !bytes.isEmpty
  | .error _ => false

def Context.validate (ctx : Context) : Except Invalid Unit := do
  denyIf (ctx.maxBytes = 0 ∨ ctx.maxDepth = 0 ∨ validId ctx.challenge ctx.maxBytes = false ∨ trimmed ctx.origin = false ∨
    trimmed ctx.rpId = false ∨ ctx.algorithms = [] ∨ (∃ a ∈ ctx.algorithms, a ∉ supportedAlgorithms) ∨
    ¬ctx.algorithms.Nodup) .configuration
  match ctx.authentication with
  | .discoverable => return ()
  | .identified userHandle allowedCredentials =>
    denyIf (validId userHandle 64 = false ∨ allowedCredentials = [] ∨ (allowedCredentials.all fun id => validId id 1023) = false)
      .configuration

/-- `client_data`: the bytes that are signed. -/
def checkClientData (ctx : Context) (encoded kind : String) : Except Invalid (List UInt8) := do
  let bytes ← decode encoded ctx.maxBytes
  let data ← Formats.clientData ctx.maxBytes ctx.maxDepth bytes
  denyIf (data.kind ≠ kind) .clientDataType
  denyIf (data.challenge ≠ ctx.challenge) .challenge
  denyIf (data.origin ≠ ctx.origin ∨ data.crossOrigin = true ∨ data.topOrigin ≠ none) .origin
  let challenge ← decode data.challenge 32
  denyIf (challenge.length ≠ 32) .input
  denyIf (∃ b ∈ data.tokenBinding, b.isPresent = true ∧ ¬∃ id ∈ b.id, id ≠ "") .input
  return bytes

def Value.isText : Value → Bool
  | .text _ => true
  | _ => false

/-- The data ends behind its extensions, which are a map with text keys. -/
def extensions (bytes : List UInt8) (offset depth : Nat) : Except Invalid Unit :=
  if bytes.getD 32 0 &&& 0x80 = 0 then denyIf (offset ≠ bytes.length) .extensions
  else if bytes.length < offset then .error .extensions
  else
    match Formats.cbor (bytes.drop offset) depth with
    | .ok (.map entries, used) =>
      denyIf ((entries.all fun e => e.1.isText) = false ∨ offset + used ≠ bytes.length) .extensions
    | _ => .error .extensions

/-- `text_field(.., "authData")?.as_bytes()`. -/
def authData : Value → Except Invalid (List UInt8)
  | .map entries =>
    match entries.find? fun e => e.1 matches .text "authData" with
    | some (_, .bytes data) => .ok data
    | _ => .error .input
  | _ => .error .input

def register (ctx : Context) (response : Registration) : Except Invalid VerifiedRegistration := do
  ctx.validate
  let client ← checkClientData ctx response.clientData "webauthn.create"
  let bytes ← decode response.attestation ctx.maxBytes
  let (object, used) ← Formats.cbor bytes ctx.maxDepth
  denyIf (used ≠ bytes.length) .input
  let data ← authData object
  let (counter, backupEligible, backupState) ← authHeader ctx data true
  denyIf (data.length < 55) .input
  let idLen := (data.getD 53 0).toNat * 256 + (data.getD 54 0).toNat
  denyIf (idLen = 0 ∨ 1023 < idLen) .input
  denyIf (data.length < 55 + idLen) .input
  let id := (data.drop 55).take idLen
  let responseId ← decode response.id 1023
  denyIf (responseId ≠ id) .credential
  let (key, used) ← Formats.cbor (data.drop (55 + idLen)) ctx.maxDepth
  let parsedKey ← Formats.publicKey key
  denyIf (parsedKey.algorithm ∉ ctx.algorithms) .algorithm
  let publicKey := encode64 ((data.drop (55 + idLen)).take used)
  extensions data (55 + idLen + used) ctx.maxDepth
  Formats.attestation ctx object data client parsedKey id
  return { id := response.id, publicKey, counter, backupEligible, backupState, userVerified := data.getD 32 0 &&& 4 ≠ 0 }

/-- The user handle, and with an allow list the credential, are the expected ones. -/
def identify (ctx : Context) (stored : StoredCredential) (response : Assertion) : Except Invalid Unit :=
  match ctx.authentication with
  | .discoverable => denyIf (response.userHandle ≠ some stored.userHandle) .userHandle
  | .identified userHandle allowedCredentials => do
    denyIf (userHandle ≠ stored.userHandle) .userHandle
    denyIf (stored.id ∉ allowedCredentials) .allowList
    denyIf (∃ handle ∈ response.userHandle, handle ≠ userHandle) .userHandle

def authenticate (ctx : Context) (stored : StoredCredential) (response : Assertion) : Except Invalid VerifiedAssertion := do
  ctx.validate
  denyIf (response.id ≠ stored.id) .credential
  let id ← decode response.id 1023
  denyIf (id = []) .input
  let handle ← decode stored.userHandle 64
  denyIf (handle = []) .input
  identify ctx stored response
  let client ← checkClientData ctx response.clientData "webauthn.get"
  let data ← decode response.authenticatorData ctx.maxBytes
  let (counter, be, backupState) ← authHeader ctx data false
  extensions data 37 ctx.maxDepth
  denyIf (be ≠ stored.backupEligible) .backup
  denyIf (¬(be = true ∨ (counter = 0 ∧ stored.counter = 0) ∨ stored.counter < counter)) .counter
  let encodedKey ← decode stored.publicKey 2048
  let (key, used) ← Formats.cbor encodedKey ctx.maxDepth
  denyIf (used ≠ encodedKey.length) .input
  let key ← Formats.publicKey key
  denyIf (key.algorithm ∉ ctx.algorithms) .algorithm
  let signature ← decode response.signature 512
  Formats.verify key (data ++ Sha.sha256 client) signature
  return { counter, backupState, userVerified := data.getD 32 0 &&& 4 ≠ 0 }

/-! ## Ceremonies of a server -/

structure Ceremony where
  purpose : String
  browserHash : String
  expiresAt : Nat
  failures : Nat
  consumed : Bool
  context : Context
  deriving DecidableEq

namespace Ceremony

def validate (self : Ceremony) (browserHash : String) (now maxFailures : Nat) (purpose : String) : Except Invalid Unit := do
  denyIf (self.purpose ≠ purpose) .ceremonyPurpose
  denyIf (self.browserHash = "" ∨ self.browserHash ≠ browserHash) .browser
  denyIf (self.consumed = true) .ceremonyConsumed
  denyIf (self.expiresAt ≤ now) .ceremonyExpired
  denyIf (maxFailures ≤ self.failures) .ceremonyAttempts

def register (self : Ceremony) (browserHash : String) (now maxFailures : Nat) (response : Registration) :
    Except Invalid VerifiedRegistration := do
  self.validate browserHash now maxFailures "register"
  Webauthn.register self.context response

def authenticate (self : Ceremony) (browserHash : String) (now maxFailures : Nat) (stored : StoredCredential)
    (response : Assertion) : Except Invalid VerifiedAssertion := do
  self.validate browserHash now maxFailures "authenticate"
  Webauthn.authenticate self.context stored response

end Ceremony

end

/-! ## What an accepted assertion is -/

theorem orElse_eq_ok {α : Type} {e : Invalid} {x : Option α} {a : α} : orElse e x = .ok a ↔ x = some a := by
  cases x with
  | none => exact ⟨(fun h => by cases h), fun h => by cases h⟩
  | some b => exact ⟨fun h => by cases h; rfl, fun h => by cases h; rfl⟩

theorem authHeader_ok {ctx : Context} {bytes : List UInt8} {registration be bs : Bool} {counter : Nat}
    (h : authHeader ctx bytes registration = .ok (counter, be, bs)) :
    header bytes = (counter, be, bs) ∧ (bs = true → be = true) := by
  simp only [authHeader, bind_eq_ok, exists_unit, denyIf_eq_ok, pure_eq_ok] at h
  obtain ⟨-, -, -, -, -, -, hbackup, he⟩ := h
  refine ⟨he, fun hs => ?_⟩
  rw [← Prod.mk.eta (p := header bytes), ← Prod.mk.eta (p := (header bytes).2)] at he
  obtain ⟨-, rfl, rfl⟩ := by simpa only [Prod.mk.injEq] using he
  by_contra hbe
  exact hbackup ⟨hs, Bool.not_eq_true _ ▸ hbe⟩

/-- What a counter may follow: itself where both are zero, or a smaller one. -/
def Advances (stored counter : Nat) : Prop := (counter = 0 ∧ stored = 0) ∨ stored < counter

theorem Advances.le {stored counter : Nat} (h : Advances stored counter) : stored ≤ counter := by
  rcases h with ⟨hc, hs⟩ | h
  · omega
  · exact h.le

theorem Advances.of_le {a b c : Nat} (hab : a ≤ b) (h : Advances b c) : Advances a c := by
  rcases h with ⟨hc, hb⟩ | h
  · exact .inl ⟨hc, by omega⟩
  · exact .inr (Nat.lt_of_le_of_lt hab h)

section
variable [Formats]

/-- What the authenticator says in an assertion, read without any check. -/
def headerOf (response : Assertion) : Option (Nat × Bool × Bool) := (decode64 response.authenticatorData).map header

theorem decode_eq_ok {s : String} {limit : Nat} {bytes : List UInt8} (h : decode s limit = .ok bytes) : decode64 s = some bytes := by
  simp only [decode, bind_eq_ok, exists_unit, orElse_eq_ok, pure_eq_ok] at h
  obtain ⟨-, b, hb, -, -, rfl⟩ := h
  exact hb

/-- An accepted assertion is of the stored credential, as its authenticator describes it; where it cannot be backed up, its
counter has advanced. -/
theorem authenticate_ok {ctx : Context} {stored : StoredCredential} {response : Assertion} {proof : VerifiedAssertion}
    (h : authenticate ctx stored response = .ok proof) :
    response.id = stored.id ∧ headerOf response = some (proof.counter, stored.backupEligible, proof.backupState) ∧
      (proof.backupState = true → stored.backupEligible = true) ∧
      (stored.backupEligible = false → Advances stored.counter proof.counter) := by
  simp only [authenticate, bind_eq_ok, exists_unit, denyIf_eq_ok, not_not, pure_eq_ok] at h
  obtain ⟨-, hid, _, -, -, _, -, -, -, _, -, data, hdata, ⟨counter, be, bs⟩, hheader, -, hbe, hcounter, _, -, _, -, -, _, -, -, _, -, -,
    rfl⟩ := h
  obtain ⟨hh, hbs⟩ := authHeader_ok hheader
  obtain rfl : be = stored.backupEligible := hbe
  refine ⟨hid, ?_, hbs, fun hne => ?_⟩
  · rw [headerOf, decode_eq_ok hdata, Option.map_some, hh]
  · rcases hcounter with hc | hc | hc
    · rw [hne] at hc
      cases hc
    · exact .inl hc
    · exact .inr hc

theorem Ceremony.authenticate_ok {ceremony : Ceremony} {browserHash : String} {now maxFailures : Nat} {stored : StoredCredential}
    {response : Assertion} {proof : VerifiedAssertion}
    (h : ceremony.authenticate browserHash now maxFailures stored response = .ok proof) :
    Webauthn.authenticate ceremony.context stored response = .ok proof := by
  simp only [Ceremony.authenticate, bind_eq_ok, exists_unit] at h
  exact h.2

end

end Mikaki.Webauthn
