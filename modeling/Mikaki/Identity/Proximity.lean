import Mikaki.Lib.Calls
import Mikaki.Lib.Framing

/-!
# Proximity sessions of a holder

A session agrees on its keys once, opens one request and seals one response.
CBOR, the NFC records, the key agreement and AES-GCM are parameters; each
function of the cipher also says which key and IV it has used.
-/

namespace Mikaki.Identity.Proximity

abbrev Bytes := List UInt8

/-- A registered reader, as far as it is passed on. -/
structure ReaderRegistration where
  name : String
  key : Bytes
  deriving DecidableEq

structure DeviceRequest where
  expiresAt : Nat
  readerName : String
  deriving DecidableEq

/-- The parts of a `SessionEstablishment`: the bytes of the reader's key, its public key and the data. -/
structure Establishment where
  readerKey : Bytes
  publicKey : Bytes
  data : Except String Bytes

class Mdoc where
  engagement : Bytes → Bytes → Except String Bytes
  /-- The engagement without its retrieval methods, and with the method of NFC data alone. -/
  withoutMethods : Bytes → Except String Bytes
  withDataMethod : Bytes → Except String Bytes
  staticHandoverSelect : Bytes → Bytes → Except String Bytes
  nfcDataHandoverSelect : Bytes → Except String Bytes
  validateRequest : Bytes → Bool → Except String Unit
  establishment : Bytes → Except String Establishment
  nfcTranscript : Bytes → Bytes → Bytes → Option Bytes → Except String Bytes
  qrTranscript : Bytes → Bytes → Except String Bytes
  diffieHellman : Bytes → Bytes → Bytes
  /-- The transcript is an array of three, and HKDF expands the two keys. -/
  expand : Bytes → Bytes → Except String (Bytes × Bytes)
  decrypt : Bytes → Bytes → Bytes → Option Bytes
  encrypt : Bytes → Bytes → Bytes → Option Bytes
  parseDeviceRequest : Bytes → Bytes → List ReaderRegistration → Nat → Except String DeviceRequest
  encodeData : Bytes → Except String Bytes

/-- A message is encrypted or accepted under a key and an IV. -/
structure Use where
  key : Bytes
  iv : Bytes
  deriving DecidableEq

/-! ## The cipher -/

structure SessionCipher where
  reader : Bytes
  device : Bytes
  readCounter : UInt32
  sendCounter : UInt32
  failed : Bool
  deriving DecidableEq

def maxCounter : UInt32 := UInt32.ofNat (2 ^ 32 - 1)

/-- Four zero bytes, the direction and the counter. -/
def iv (direction counter : UInt32) : Bytes := [0, 0, 0, 0] ++ Framing.be32 direction ++ Framing.be32 counter

section
variable [Mdoc]

namespace SessionCipher

def derive (shared transcript : Bytes) : Except String SessionCipher := do
  if shared.length ≠ 32 then throw "invalid_session_key"
  let (reader, device) ← Mdoc.expand shared transcript
  return { reader, device, readCounter := 1, sendCounter := 1, failed := false }

def decryptReader (self : SessionCipher) (data : Bytes) : (Except String Bytes × List Use) × SessionCipher :=
  if self.failed = true ∨ self.readCounter = maxCounter ∨ ¬(16 ≤ data.length ∧ data.length ≤ 32000) then
    ((.error "session_closed", []), { self with failed := true })
  else
    match Mdoc.decrypt self.reader (iv 0 self.readCounter) data with
    | some plain =>
      ((.ok plain, [⟨self.reader, iv 0 self.readCounter⟩]), { self with readCounter := self.readCounter + 1 })
    | none => ((.error "session_authentication_failed", []), { self with failed := true })

def encryptDevice (self : SessionCipher) (plain : Bytes) : (Except String Bytes × List Use) × SessionCipher :=
  if self.failed = true ∨ self.sendCounter = maxCounter ∨ plain.length > 31000 then
    ((.error "session_closed", []), { self with failed := true })
  else
    let next := { self with sendCounter := self.sendCounter + 1 }
    match Mdoc.encrypt self.device (iv 1 self.sendCounter) plain with
    | some data => ((.ok data, [⟨self.device, iv 1 self.sendCounter⟩]), next)
    | none => ((.error "session_encryption_failed", [⟨self.device, iv 1 self.sendCounter⟩]), { next with failed := true })

end SessionCipher

/-! ## The session -/

structure HolderSession where
  ephemeral : Option Bytes
  engagement : Bytes
  transcript : Option Bytes
  handoverSelect : Option Bytes
  negotiated : Bool
  nfcDataHandover : Bool
  handoverRequest : Option Bytes
  cipher : Option SessionCipher
  requested : Option DeviceRequest
  closed : Bool
  deriving DecidableEq

namespace HolderSession

def new (ephemeral serviceUuid : Bytes) : Except String HolderSession := do
  let engagement ← Mdoc.engagement ephemeral serviceUuid
  return {
    ephemeral := some ephemeral, engagement, transcript := none, handoverSelect := none, negotiated := false
    nfcDataHandover := false, handoverRequest := none, cipher := none, requested := none, closed := false }

def newNfc (ephemeral serviceUuid : Bytes) : Except String HolderSession := do
  let session ← new ephemeral serviceUuid
  let engagement ← Mdoc.withoutMethods session.engagement
  let select ← Mdoc.staticHandoverSelect engagement serviceUuid
  return { session with engagement, handoverSelect := some select }

def newNfcNegotiated (ephemeral uuid : Bytes) : Except String HolderSession := do
  let session ← newNfc ephemeral uuid
  return { session with negotiated := true }

def newNfcNegotiatedData (ephemeral : Bytes) : Except String HolderSession := do
  let session ← newNfcNegotiated ephemeral (List.replicate 16 0)
  let select ← Mdoc.nfcDataHandoverSelect session.engagement
  return { session with nfcDataHandover := true, handoverSelect := some select }

def newNfcData (ephemeral : Bytes) : Except String HolderSession := do
  let session ← new ephemeral (List.replicate 16 0)
  let engagement ← Mdoc.withDataMethod session.engagement
  return { session with engagement }

/-- A session as one of its five constructors makes it. -/
def Made (session : HolderSession) : Prop :=
  ∃ ephemeral uuid, new ephemeral uuid = .ok session ∨ newNfc ephemeral uuid = .ok session ∨
    newNfcNegotiated ephemeral uuid = .ok session ∨ newNfcNegotiatedData ephemeral = .ok session ∨
    newNfcData ephemeral = .ok session

omit [Mdoc] in
def close (self : HolderSession) : HolderSession :=
  { self with
    closed := true, ephemeral := none, cipher := none, requested := none, transcript := none, handoverRequest := none }

def negotiate (self : HolderSession) (request : Bytes) : Except String Bytes × HolderSession :=
  if self.closed = true ∨ self.negotiated = false ∨ self.handoverRequest.isSome = true then
    (.error "invalid_handover_state", self.close)
  else
    match Mdoc.validateRequest request self.nfcDataHandover with
    | .error error => (.error error, self.close)
    | .ok () =>
      let self := { self with handoverRequest := some request }
      match self.handoverSelect with
      | some select => (.ok select, self)
      | none => (.error "invalid_handover", self)

def bindTranscript (self : HolderSession) (readerKey : Bytes) : Except String Bytes :=
  match self.handoverSelect with
  | some select => Mdoc.nfcTranscript self.engagement readerKey select self.handoverRequest
  | none => Mdoc.qrTranscript self.engagement readerKey

/-- The message of the reader with the transcript and the cipher that open it. -/
def deriveKeys (self : HolderSession) (key packet : Bytes) : Except String (Establishment × Bytes × SessionCipher) := do
  let parts ← Mdoc.establishment packet
  let transcript ← self.bindTranscript parts.readerKey
  let cipher ← SessionCipher.derive (Mdoc.diffieHellman key parts.publicKey) transcript
  return (parts, transcript, cipher)

/-- What `establish` does with the ephemeral key that it has taken: the new parts of the session, and what was accepted. -/
def agree (self : HolderSession) (key packet : Bytes) (readers : List ReaderRegistration) (now : Nat) :
    Except String (Bytes × SessionCipher × DeviceRequest) × List Use :=
  if self.negotiated = true ∧ self.handoverRequest = none then (.error "handover_required", [])
  else
    match self.deriveKeys key packet with
    | .error error => (.error error, [])
    | .ok (parts, transcript, cipher) =>
      match parts.data with
      | .error error => (.error error, [])
      | .ok data =>
        match cipher.decryptReader data with
        | ((.error error, uses), _) => (.error error, uses)
        | ((.ok plain, uses), cipher) =>
          match Mdoc.parseDeviceRequest plain transcript readers now with
          | .error error => (.error error, uses)
          | .ok request => (.ok (transcript, cipher, request), uses)

def establish (self : HolderSession) (packet : Bytes) (readers : List ReaderRegistration) (now : Nat) :
    (Except String DeviceRequest × List Use) × HolderSession :=
  if self.closed = true then ((.error "session_consumed", []), self)
  else
    match self.ephemeral with
    | none => ((.error "session_consumed", []), self)
    | some key =>
      let self := { self with ephemeral := none }
      match self.agree key packet readers now with
      | (.error error, uses) => ((.error error, uses), self.close)
      | (.ok (transcript, cipher, request), uses) =>
        ((.ok request, uses), { self with transcript := some transcript, cipher := some cipher, requested := some request })

def sealResponse (self : HolderSession) (response : Bytes) : (Except String Bytes × List Use) × HolderSession :=
  if self.closed = true ∨ self.requested = none then ((.error "review_required", []), self)
  else
    match self.cipher with
    | none => ((.error "session_not_established", []), self)
    | some cipher =>
      let ((result, uses), _) := cipher.encryptDevice response
      ((result >>= Mdoc.encodeData, uses), self.close)

omit [Mdoc] in
def request (self : HolderSession) : Except String DeviceRequest :=
  match self.requested with
  | some request => .ok request
  | none => .error "review_required"

def sealResponseAt (self : HolderSession) (response : Bytes) (now : Nat) : (Except String Bytes × List Use) × HolderSession :=
  match self.request with
  | .error error => ((.error error, []), self)
  | .ok request =>
    if request.expiresAt ≤ now then ((.error "reader_authentication_expired", []), self.close) else self.sealResponse response

omit [Mdoc] in
def readTranscript (self : HolderSession) : Except String Bytes :=
  match self.transcript with
  | some transcript => .ok transcript
  | none => .error "session_not_established"

end HolderSession

/-! ## Calls in any order -/

namespace SessionCipher

inductive Call where
  | decryptReader (data : Bytes)
  | encryptDevice (plain : Bytes)
  deriving DecidableEq

def step (call : Call) (self : SessionCipher) : (Except String Bytes × List Use) × SessionCipher :=
  match call with
  | .decryptReader data => self.decryptReader data
  | .encryptDevice plain => self.encryptDevice plain

end SessionCipher

namespace HolderSession

inductive Call where
  | negotiate (request : Bytes)
  | establish (packet : Bytes) (readers : List ReaderRegistration) (now : Nat)
  | sealResponse (response : Bytes)
  | sealResponseAt (response : Bytes) (now : Nat)
  | request
  | readTranscript
  | close
  deriving DecidableEq

inductive Answer where
  | bytes (bytes : Bytes)
  | request (request : DeviceRequest)
  | closed
  deriving DecidableEq

def step (call : Call) (self : HolderSession) : (Except String Answer × List Use) × HolderSession :=
  match call with
  | .negotiate request => (((self.negotiate request).1.map .bytes, []), (self.negotiate request).2)
  | .establish packet readers now =>
    let ((result, uses), self) := self.establish packet readers now
    ((result.map .request, uses), self)
  | .sealResponse response =>
    let ((result, uses), self) := self.sealResponse response
    ((result.map .bytes, uses), self)
  | .sealResponseAt response now =>
    let ((result, uses), self) := self.sealResponseAt response now
    ((result.map .bytes, uses), self)
  | .request => ((self.request.map .request, []), self)
  | .readTranscript => ((self.readTranscript.map .bytes, []), self)
  | .close => ((.ok .closed, []), self.close)

end HolderSession

end

end Mikaki.Identity.Proximity
