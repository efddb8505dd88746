import Mikaki.Identity.WalletAuthorization
import Mikaki.Work.Records

/-!
# The registration of an installation

One transaction goes from its start over the challenge of the server to the
completion. What is left of it for recovery is a checkpoint; a status request
takes a fresh identifier and leaves it there. URLs, base64url and signatures
are parameters.
-/

namespace Mikaki.Installation

open Checks Words
open Mikaki.Vault (Base64 encode64 decode64)
open Mikaki.Identity.Wallet (PublicJwk Url Formats parse orElse)

/-! ## Proofs -/

class Signatures (Trust : outParam Type) extends Formats Trust where
  /-- The origin of a URL in ASCII. -/
  origin : Url → String
  /-- The two scalars of a DER signature. -/
  fromDer : List UInt8 → Option (List UInt8)
  verifies : List UInt8 → List UInt8 → List UInt8 → Bool

structure InstallationSigner where
  publicKey : Except String PublicJwk
  signDer : String → Except String (List UInt8)

inductive Step where
  | start
  | status
  | complete (nonce : String)

section
variable {Trust : Type} [Signatures Trust]

/-- Thirty-two bytes as they are encoded. -/
def isOpaque (value : String) : Bool :=
  value.utf8ByteSize == 43 && (decode64 value).any fun bytes => bytes.length == 32 && encode64 bytes == value

def endpoint : Step → Except String (String × Option String)
  | .start => .ok ("/native/installations/start", none)
  | .status => .ok ("/native/installations/status", none)
  | .complete nonce =>
    if isOpaque nonce then .ok ("/native/installations/complete", some nonce) else .error "invalid_installation_proof"

def proofForKey (signer : InstallationSigner) (issuer : String) (step : Step) (jti : String) (now : UInt64)
    (expected : Option PublicJwk) : Except String String := do
  let url ← orElse "invalid_installation_proof" (parse issuer)
  denyIf (issuer.utf8ByteSize > 2048 ∨ issuer.toList.getLast? = some '/' ∨ url.scheme ≠ "https" ∨
    Signatures.origin url ≠ issuer ∨ url.path ≠ "/" ∨ url.query ≠ none ∨ url.fragment ≠ none ∨ url.username ≠ "" ∨
    url.password ≠ none ∨ now = 0 ∨ isOpaque jti = false) "invalid_installation_proof"
  let (path, nonce) ← endpoint step
  let public_ ← signer.publicKey
  denyIf ((expected.any fun key => key ≠ public_) = true) "invalid_installation_proof"
  let verifier ← public_.verifyingKey.mapError fun _ => "invalid_installation_proof"
  let header : Json.Value := .obj [("alg", .str "ES256"), ("jwk", public_.json), ("typ", .str "dpop+jwt")]
  let claims : Json.Value := .obj ([("htm", .str "POST"), ("htu", .str (issuer ++ path)), ("iat", .num now.toNat), ("jti", .str jti)] ++
    (nonce.map fun nonce => ("nonce", Json.Value.str nonce)).toList)
  let input := encode64 (Text.bytes header.render) ++ "." ++ encode64 (Text.bytes claims.render)
  let der ← signer.signDer input
  let signature ← orElse "invalid_installation_proof" (Signatures.fromDer der)
  denyIf (Signatures.verifies verifier (Text.bytes input) signature = false) "invalid_installation_proof"
  return input ++ "." ++ encode64 signature

def proof (signer : InstallationSigner) (issuer : String) (step : Step) (jti : String) (now : UInt64) : Except String String :=
  proofForKey signer issuer step jti now none

end

/-! ## The transaction -/

def maxClockSkewAndLifetime : UInt64 := 130

structure Started where
  issuer : String
  key : PublicJwk
  startJti : String
  startedAt : UInt64
  proof : String

structure Challenged where
  issuer : String
  key : PublicJwk
  startJti : String
  startedAt : UInt64
  id : String
  nonce : String
  expiresAt : UInt64

structure CompletionRequest where
  issuer : String
  key : PublicJwk
  startedAt : UInt64
  startJti : String
  completionJti : String
  statusJtis : List String
  id : String
  proof : String

structure StatusRequest where
  id : String
  proof : String

structure RecoveryCheckpoint where
  version : Nat
  issuer : String
  ownerBinding : String
  key : PublicJwk
  id : String
  startedAt : UInt64
  startJti : String
  completionJti : String
  statusJtis : List String
  deriving DecidableEq

structure Challenge where
  id : String
  nonce : String
  expiresAt : UInt64

def u64 (v : Json.Value) : Option UInt64 := (v.asNum (2 ^ 64)).map UInt64.ofNat

/-- `serde_json::from_slice`. -/
def fromSlice {α : Type} (read : Json.Value → Option α) (bytes : List UInt8) : Option α :=
  ((Text.utf8 bytes).bind Json.parse).bind read

def Challenge.read (v : Json.Value) : Option Challenge := do
  let f ← Json.fields ["id", "nonce", "expires_at"] v
  let id ← Records.field f "id" Records.string
  let nonce ← Records.field f "nonce" Records.string
  let expiresAt ← Records.field f "expires_at" u64
  return ⟨id, nonce, expiresAt⟩

section
variable {Trust : Type} [Signatures Trust]

def Started.begin (signer : InstallationSigner) (issuer jti : String) (now : UInt64) : Except String Started := do
  let key ← signer.publicKey
  let compact ← proofForKey signer issuer .start jti now (some key)
  return { issuer, key, startJti := jti, startedAt := now, proof := compact }

def Started.challenge (self : Started) (response : List UInt8) (now : UInt64) : Except String Challenged := do
  denyIf (response.length > 1024 ∨ now < self.startedAt ∨ saturatingSub now self.startedAt > maxClockSkewAndLifetime)
    "invalid_installation_challenge"
  let value ← orElse "invalid_installation_challenge" (fromSlice Challenge.read response)
  denyIf (isOpaque value.id = false ∨ isOpaque value.nonce = false ∨ value.expiresAt ≤ now ∨
    value.expiresAt > saturatingAdd self.startedAt maxClockSkewAndLifetime) "invalid_installation_challenge"
  return { issuer := self.issuer, key := self.key, startJti := self.startJti, startedAt := self.startedAt
           id := value.id, nonce := value.nonce, expiresAt := value.expiresAt }

def Challenged.complete (self : Challenged) (signer : InstallationSigner) (jti : String) (now : UInt64) :
    Except String CompletionRequest := do
  denyIf (now < self.startedAt ∨ now ≥ self.expiresAt ∨ saturatingSub now self.startedAt > maxClockSkewAndLifetime ∨
    jti = self.startJti) "invalid_installation_challenge"
  let compact ← proofForKey signer self.issuer (.complete self.nonce) jti now (some self.key)
  return { issuer := self.issuer, key := self.key, startedAt := self.startedAt, startJti := self.startJti
           completionJti := jti, statusJtis := [], id := self.id, proof := compact }

def CompletionRequest.intoRecovery (self : CompletionRequest) (ownerBinding : String) :
    Except String (RecoveryCheckpoint × String) := do
  denyIf (isOpaque ownerBinding = false) "invalid_installation_recovery"
  return ({ version := 1, issuer := self.issuer, ownerBinding, key := self.key, id := self.id, startedAt := self.startedAt
            startJti := self.startJti, completionJti := self.completionJti, statusJtis := self.statusJtis }, self.proof)

/-- The proof of a status request that none of the identifiers was used for. -/
def statusProof (issuer : String) (key : PublicJwk) (startedAt : UInt64) (startJti completionJti : String)
    (statusJtis : List String) (signer : InstallationSigner) (jti : String) (now : UInt64) : Except String String := do
  denyIf (now < startedAt ∨ statusJtis.length ≥ 16 ∨ jti = startJti ∨ jti = completionJti ∨ jti ∈ statusJtis)
    "invalid_installation_status"
  proofForKey signer issuer .status jti now (some key)

def CompletionRequest.statusRequest (self : CompletionRequest) (signer : InstallationSigner) (jti : String) (now : UInt64) :
    Except String (CompletionRequest × StatusRequest) := do
  let compact ← statusProof self.issuer self.key self.startedAt self.startJti self.completionJti self.statusJtis signer jti now
  return ({ self with statusJtis := self.statusJtis ++ [jti] }, ⟨self.id, compact⟩)

/-! ## The checkpoint -/

def keyJson (key : PublicJwk) : Json.Value :=
  .obj [("kty", .str key.kty), ("crv", .str key.crv), ("x", .str key.x), ("y", .str key.y)]

def readKey (v : Json.Value) : Option PublicJwk := do
  let f ← Json.fields ["kty", "crv", "x", "y"] v
  let kty ← Records.field f "kty" Records.string
  let crv ← Records.field f "crv" Records.string
  let x ← Records.field f "x" Records.string
  let y ← Records.field f "y" Records.string
  return ⟨kty, crv, x, y⟩

namespace RecoveryCheckpoint

def json (self : RecoveryCheckpoint) : Json.Value :=
  .obj [("version", .num self.version), ("issuer", .str self.issuer), ("owner_binding", .str self.ownerBinding),
    ("key", keyJson self.key), ("id", .str self.id), ("started_at", .num self.startedAt.toNat), ("start_jti", .str self.startJti),
    ("completion_jti", .str self.completionJti), ("status_jtis", .arr (self.statusJtis.map .str))]

def read (v : Json.Value) : Option RecoveryCheckpoint := do
  let f ← Json.fields ["version", "issuer", "owner_binding", "key", "id", "started_at", "start_jti", "completion_jti",
    "status_jtis"] v
  let version ← Records.field f "version" (·.asNum (2 ^ 8))
  let issuer ← Records.field f "issuer" Records.string
  let ownerBinding ← Records.field f "owner_binding" Records.string
  let key ← Records.field f "key" readKey
  let id ← Records.field f "id" Records.string
  let startedAt ← Records.field f "started_at" u64
  let startJti ← Records.field f "start_jti" Records.string
  let completionJti ← Records.field f "completion_jti" Records.string
  let statusJtis ← Records.field f "status_jtis" Records.strings
  return { version, issuer, ownerBinding, key, id, startedAt, startJti, completionJti, statusJtis }

def encode (self : RecoveryCheckpoint) : List UInt8 := Text.bytes self.json.render

/-- No identifier is malformed or used twice, after those in `used`. -/
def checkJtis : List String → List String → Except String Unit
  | _, [] => .ok ()
  | used, jti :: jtis => do
    denyIf (isOpaque jti = false ∨ jti ∈ used) "invalid_installation_recovery"
    checkJtis (used ++ [jti]) jtis

def restore (bytes : List UInt8) (issuer ownerBinding : String) (signer : InstallationSigner) (now : UInt64) :
    Except String RecoveryCheckpoint := do
  denyIf (bytes.length > 4096 ∨ isOpaque ownerBinding = false) "invalid_installation_recovery"
  let record ← orElse "invalid_installation_recovery" (fromSlice read bytes)
  denyIf (record.version ≠ 1 ∨ record.issuer ≠ issuer ∨ record.ownerBinding ≠ ownerBinding ∨ isOpaque record.id = false ∨
    isOpaque record.startJti = false ∨ isOpaque record.completionJti = false ∨ record.startJti = record.completionJti ∨
    record.startedAt = 0 ∨ now < record.startedAt ∨ record.statusJtis.length > 16) "invalid_installation_recovery"
  let public_ ← signer.publicKey
  denyIf (public_ ≠ record.key ∨ record.key.verifyingKey.isOk = false) "invalid_installation_recovery"
  checkJtis [record.startJti, record.completionJti] record.statusJtis
  return record

def statusRequest (self : RecoveryCheckpoint) (signer : InstallationSigner) (jti : String) (now : UInt64) :
    Except String (RecoveryCheckpoint × StatusRequest) := do
  let compact ← statusProof self.issuer self.key self.startedAt self.startJti self.completionJti self.statusJtis signer jti now
  return ({ self with statusJtis := self.statusJtis ++ [jti] }, ⟨self.id, compact⟩)

end RecoveryCheckpoint

end

end Mikaki.Installation
