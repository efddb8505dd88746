import Mikaki.Identity.WalletAuthorization
import Mikaki.Lib.Base64url
import Mikaki.Lib.Framing
import Mikaki.Lib.Sha

/-!
# Encrypted issuance messages

A message is a compact JWE of five parts. The key is agreed on between an
ephemeral key of the sender and the key of the recipient; a response may be
compressed, and a request is not. The curve, the cipher, the compression and the
reading of a header are parameters.
-/

namespace Mikaki.Identity.Encryption

open Checks
open Wallet (PublicJwk orElse orElse_eq_ok)

abbrev Bytes := List UInt8

def error : String := "invalid_encryption_parameters"

def requestPlainLimit : Nat := 20480
def requestWireLimit : Nat := 32768
def responsePlainLimit : Nat := 65536
def responseWireLimit : Nat := 96 * 1024
def batchRequestPlainLimit : Nat := 144 * 1024
def batchRequestWireLimit : Nat := 208 * 1024
def batchResponsePlainLimit : Nat := 128 * 1024
def batchResponseWireLimit : Nat := 192 * 1024

/-- The protected header of a message; `extra` has the members without a name here. -/
structure Header where
  alg : String
  enc : String
  kid : Option String
  epk : PublicJwk
  apu : Option String
  apv : Option String
  extra : List (String × Json.Value)

/-- `p256`, `aes_gcm`, `miniz_oxide` and `serde_json`. The room of a decompression is the buffer that it writes to. -/
class Jose (Secret : outParam Type) where
  secretFromSlice : Bytes → Option Secret
  /-- The uncompressed point of the public key. -/
  point : Secret → Bytes
  onCurve : Bytes → Bool
  diffieHellman : Secret → Bytes → Bytes
  /-- AES-GCM with the key, the nonce and the associated data. -/
  encrypt : Bytes → Bytes → Bytes → Bytes → Option Bytes
  decrypt : Bytes → Bytes → Bytes → Bytes → Option Bytes
  compress : Bytes → Bytes
  /-- Whether the stream came to its end, what was read and what was written of it. -/
  decompress : Bytes → (room : Nat) → Bool × Nat × Vector UInt8 room × Nat
  readHeader : Bytes → Option Header

export Jose (secretFromSlice point onCurve diffieHellman)

/-! ## Keys -/

structure EncryptionKey where
  kty : String
  crv : String
  x : String
  y : String
  alg : String
  kid : Option String
  usage : Option String
  keyOps : Option (List String)
  extra : List (String × Json.Value)

/-- A member that may be missing, or `null`. -/
def optional {α : Type} (read : Json.Value → Option α) (ms : List (String × Json.Value)) (name : String) : Option (Option α) :=
  match ms.lookup name with
  | none | some .null => some none
  | some v => (read v).map some

def EncryptionKey.read : Json.Value → Option EncryptionKey
  | .obj ms => do
    let kty ← (ms.lookup "kty").bind Json.Value.asStr
    let crv ← (ms.lookup "crv").bind Json.Value.asStr
    let x ← (ms.lookup "x").bind Json.Value.asStr
    let y ← (ms.lookup "y").bind Json.Value.asStr
    let alg ← (ms.lookup "alg").bind Json.Value.asStr
    let kid ← optional Json.Value.asStr ms "kid"
    let usage ← optional Json.Value.asStr ms "use"
    let keyOps ← optional (Json.Value.asArr Json.Value.asStr) ms "key_ops"
    let extra := ms.filter fun m => m.1 ∉ ["kty", "crv", "x", "y", "alg", "kid", "use", "key_ops"]
    return { kty, crv, x, y, alg, kid, usage, keyOps, extra }
  | _ => none

/-- A text that is the one of its bytes. -/
def decode (s : String) : Except String Bytes := do
  let b ← orElse error (Base64url.decode s)
  denyIf (Base64url.encode b ≠ s) error
  return b

def bits (enc : String) : Except String Nat :=
  if enc = "A128GCM" then .ok 128 else if enc = "A256GCM" then .ok 256 else .error error

def fromPoint (point : Bytes) : PublicJwk :=
  ⟨"EC", "P-256", Base64url.encode ((point.drop 1).take 32), Base64url.encode (point.drop 33)⟩

section
variable {Secret : Type} [Jose Secret]

def verifyingKey (self : PublicJwk) : Except String Bytes := do
  denyIf (self.kty ≠ "EC" ∨ self.crv ≠ "P-256") "invalid_key"
  let x ← orElse "invalid_key" (Base64url.decode self.x)
  let y ← orElse "invalid_key" (Base64url.decode self.y)
  denyIf (x.length ≠ 32 ∨ y.length ≠ 32 ∨ Base64url.encode x ≠ self.x ∨ Base64url.encode y ≠ self.y) "invalid_key"
  denyIf (onCurve (4 :: x ++ y) = false) "invalid_key"
  return 4 :: x ++ y

/-- A member that a public key must not have. -/
def foreign : List String := ["d", "p", "q", "dp", "dq", "qi", "oth", "k", "jku", "x5u", "x5c"]

def EncryptionKey.jwk (self : EncryptionKey) : PublicJwk := ⟨self.kty, self.crv, self.x, self.y⟩

/-- `EncryptionKey::public`. -/
def EncryptionKey.publicJwk (self : EncryptionKey) : Except String PublicJwk := do
  denyIf (self.alg ≠ "ECDH-ES" ∨ (∃ k ∈ self.kid, k = "" ∨ k.utf8ByteSize > 128) ∨ (∃ u ∈ self.usage, u ≠ "enc") ∨
    (∃ ops ∈ self.keyOps, ops = [] ∨ ops.length > 2 ∨ ∃ op ∈ ops, op ∉ ["deriveKey", "deriveBits"]) ∨
    ∃ k ∈ foreign, (self.extra.lookup k).isSome) error
  let _ ← (verifyingKey self.jwk).mapError fun _ => error
  return self.jwk

def EncryptionKey.metadata (self : EncryptionKey) : Json.Value :=
  .obj ([("alg", .str self.alg), ("crv", .str self.crv)] ++ (self.kid.elim [] fun kid => [("kid", .str kid)]) ++
    [("kty", .str self.kty), ("use", .str "enc"), ("x", .str self.x), ("y", .str self.y)])

/-- A private key with its public half, which was compared with it when the key was read. -/
structure RequestKey (Secret : Type) [Jose Secret] where
  secret : Secret
  jwk : EncryptionKey
  matching : jwk.publicJwk = .ok (fromPoint (point secret))

def RequestKey.parse (raw : String) : Except String (RequestKey Secret) := do
  denyIf (raw.utf8ByteSize > 4096) error
  match Json.parse raw with
  | some (.obj ms) =>
    let d ← orElse error ((ms.lookup "d").bind Json.Value.asStr)
    let secret ← orElse error (secretFromSlice (← decode d))
    let jwk ← orElse error (EncryptionKey.read (.obj (ms.filter fun m => m.1 ≠ "d")))
    if h : jwk.publicJwk = .ok (fromPoint (point secret)) then
      denyIf (jwk.kid = none) error
      return ⟨secret, jwk, h⟩
    else .error error
  | _ => .error error

structure ResponseEncryption where
  jwk : EncryptionKey
  enc : String
  zip : Option String
  extra : List (String × Json.Value)

def ResponseEncryption.read : Json.Value → Option ResponseEncryption
  | .obj ms => do
    let jwk ← (ms.lookup "jwk").bind EncryptionKey.read
    let enc ← (ms.lookup "enc").bind Json.Value.asStr
    let zip ← optional Json.Value.asStr ms "zip"
    let extra := ms.filter fun m => m.1 ∉ ["jwk", "enc", "zip"]
    return { jwk, enc, zip, extra }
  | _ => none

def ResponseEncryption.validate (self : ResponseEncryption) : Except String Unit := do
  let _ ← self.jwk.publicJwk
  let _ ← bits self.enc
  denyIf ((∃ z ∈ self.zip, z ≠ "DEF") ∨ (self.extra.lookup "alg").isSome) error

/-! ## The content key -/

/-- The length of a part as `u32`, and the part. -/
def prefixed (part : Bytes) : Bytes := Framing.be32 (UInt32.ofNat part.length) ++ part

/-- The first bytes of the one round of the key derivation. -/
def cek (secret : Secret) (key : PublicJwk) (enc : String) (apu apv : Bytes) : Except String Bytes := do
  let n ← bits enc
  let key ← (verifyingKey key).mapError fun _ => error
  let shared := diffieHellman secret key
  let hash := Sha.sha256 (Framing.be32 1 ++ shared ++ [Text.bytes enc, apu, apv].flatMap prefixed ++ Framing.be32 (UInt32.ofNat n))
  return hash.take (n / 8)

/-- The length of the key of a cipher. -/
def cipher (enc : String) (key : Bytes) : Except String Unit :=
  if enc = "A128GCM" then denyIf (key.length ≠ 16) error else if enc = "A256GCM" then denyIf (key.length ≠ 32) error else .error error

/-! ## Sending -/

def headerValue (recipient : ResponseEncryption) (epk : PublicJwk) : Json.Value :=
  .obj ([("alg", .str "ECDH-ES"), ("cty", .str "json"), ("enc", .str recipient.enc), ("epk", epk.json)] ++
    (recipient.jwk.kid.elim [] fun kid => [("kid", .str kid)]) ++ (recipient.zip.elim [] fun _ => [("zip", .str "DEF")]))

def encryptBounded (plain : Bytes) (recipient : ResponseEncryption) (entropy : Vector UInt8 32) (iv : Vector UInt8 12) (limit : Nat) :
    Except String String := do
  recipient.validate
  denyIf (plain.length > limit) error
  let ephemeral ← orElse error (secretFromSlice entropy.toList)
  let key ← recipient.jwk.publicJwk
  let cek ← cek ephemeral key recipient.enc [] []
  let epk := fromPoint (point ephemeral)
  let plain := recipient.zip.elim plain fun _ => Jose.compress plain
  let header := Base64url.encode (Text.bytes (headerValue recipient epk).render)
  cipher recipient.enc cek
  let encrypted ← orElse error (Jose.encrypt cek iv.toList (Text.bytes header) plain)
  let (body, tag) := encrypted.splitAt (encrypted.length - 16)
  return header ++ ".." ++ Base64url.encode iv.toList ++ "." ++ Base64url.encode body ++ "." ++ Base64url.encode tag

def encryptResponse (plain : Bytes) (recipient : ResponseEncryption) (entropy : Vector UInt8 32) (iv : Vector UInt8 12) :
    Except String String := encryptBounded plain recipient entropy iv responsePlainLimit

def encryptBatchResponse (plain : Bytes) (recipient : ResponseEncryption) (entropy : Vector UInt8 32) (iv : Vector UInt8 12) :
    Except String String := encryptBounded plain recipient entropy iv batchResponsePlainLimit

/-! ## Receiving -/

def segments (compact : String) : List String := (compact.toList.splitOn '.').map String.ofList

def party : Option String → Except String Bytes
  | some s => if s.utf8ByteSize ≤ 512 then decode s else .error error
  | none => .ok []

/-- What a plaintext is in a message whose header has a compression. -/
def inflate (plain : Bytes) (limit : Nat) : Except String Bytes := do
  let (done, consumed, output, written) := Jose.decompress plain limit
  denyIf (done = false ∨ consumed ≠ plain.length) error
  return output.toList.take written

def decryptParts (p0 p2 p3 p4 : String) (key : RequestKey Secret) (plainLimit : Nat) (expectedEnc : Option String)
    (allowDeflate : Bool) : Except String Bytes := do
  let h ← orElse error (Jose.readHeader (← decode p0))
  denyIf (h.alg ≠ "ECDH-ES" ∨ h.kid ≠ key.jwk.kid ∨ (∃ enc ∈ expectedEnc, h.enc ≠ enc) ∨
    (∃ z ∈ h.extra.lookup "zip", allowDeflate = false ∨ z.asStr ≠ some "DEF") ∨
    ∃ k ∈ ["crit", "b64", "jku", "x5u"], (h.extra.lookup k).isSome) error
  let apu ← party h.apu
  let apv ← party h.apv
  let cek ← cek key.secret h.epk h.enc apu apv
  let iv ← decode p2
  let tag ← decode p4
  denyIf (iv.length ≠ 12 ∨ tag.length ≠ 16) error
  let body ← decode p3
  cipher h.enc cek
  let plain ← orElse error (Jose.decrypt cek iv (Text.bytes p0) (body ++ tag))
  if (h.extra.lookup "zip").isSome then inflate plain plainLimit
  else
    denyIf (plain.length > plainLimit) error
    return plain

def decryptMessage (compact : String) (key : RequestKey Secret) (wireLimit plainLimit : Nat) (expectedEnc : Option String)
    (allowDeflate : Bool) : Except String Bytes := do
  denyIf (compact.utf8ByteSize > wireLimit) error
  match segments compact with
  | [p0, p1, p2, p3, p4] =>
    denyIf (p1 ≠ "" ∨ p0.utf8ByteSize > 4096) error
    decryptParts p0 p2 p3 p4 key plainLimit expectedEnc allowDeflate
  | _ => .error error

def decryptRequest (compact : String) (key : RequestKey Secret) : Except String Bytes :=
  decryptMessage compact key requestWireLimit requestPlainLimit none false

def decryptBatchRequest (compact : String) (key : RequestKey Secret) : Except String Bytes :=
  decryptMessage compact key batchRequestWireLimit batchRequestPlainLimit none false

end

/-! ## The wallet -/

section
variable {Secret : Type} [Jose Secret]

/-- The keys and the algorithms that were taken from the metadata of an issuer. -/
structure WalletEncryption (Secret : Type) [Jose Secret] where
  recipient : RequestKey Secret
  request : EncryptionKey
  enc : String
  deflate : Bool

namespace WalletEncryption

/-- An array of at most 16 texts with a wanted one. -/
def supported (m : Json.Value) (field wanted : String) : Bool :=
  match Wallet.index m field with
  | .arr a => a.length ≤ 16 && a.all (fun v => v.asStr.isSome) && a.any fun v => v.asStr == some wanted
  | _ => false

/-- The keys of an issuer, each with an id of its own. -/
def readKeys (ids : List String) : List Json.Value → Except String (List EncryptionKey)
  | [] => .ok []
  | value :: values => do
    let key ← orElse error (EncryptionKey.read value)
    let _ ← key.publicJwk
    let id ← orElse error key.kid
    denyIf (id ∈ ids) error
    let keys ← readKeys (id :: ids) values
    return key :: keys

/-- What may be negotiated with an issuer. -/
def required (m : Json.Value) : Bool :=
  match Wallet.index m "encryption_required" with
  | .bool _ => true
  | _ => false

/-- The content encryption of both directions. -/
def choose (req res : Json.Value) : Option String :=
  ["A256GCM", "A128GCM"].find? fun e => supported req "enc_values_supported" e && supported res "enc_values_supported" e

def ofMetadata (req res : Json.Value) (entropy : Vector UInt8 32) (kid : String) : Except String (WalletEncryption Secret) := do
  denyIf (required req = false ∨ required res = false) error
  denyIf (supported res "alg_values_supported" "ECDH-ES" = false) error
  let enc ← orElse error (choose req res)
  match Wallet.index (Wallet.index req "jwks") "keys" with
  | .arr values =>
    denyIf (values.length > 8) error
    let keys ← readKeys [] values
    let request ← orElse error keys.head?
    let secret ← orElse error (secretFromSlice entropy.toList)
    let own := fromPoint (point secret)
    let jwk : EncryptionKey := ⟨own.kty, own.crv, own.x, own.y, "ECDH-ES", some kid, some "enc", none, []⟩
    if h : jwk.publicJwk = .ok (fromPoint (point secret)) then
      denyIf (request.publicJwk = .ok own) error
      return { recipient := ⟨secret, jwk, h⟩, request, enc, deflate := supported res "zip_values_supported" "DEF" }
    else .error error
  | _ => .error error

/-- No encryption where neither direction has any. -/
def fromMetadata (metadata : Json.Value) (entropy : Vector UInt8 32) (kid : String) :
    Except String (Option (WalletEncryption Secret)) := do
  let member (name : String) : Option Json.Value := match metadata with
    | .obj ms => ms.lookup name
    | _ => none
  match member "credential_request_encryption", member "credential_response_encryption" with
  | none, none => return none
  | some req, some res =>
    let wallet ← ofMetadata req res entropy kid
    return some wallet
  | _, _ => .error error

/-- The parameters that a request asks its response with. -/
def parameters (self : WalletEncryption Secret) : Json.Value :=
  .obj ([("enc", .str self.enc), ("jwk", self.recipient.jwk.metadata)] ++ if self.deflate then [("zip", .str "DEF")] else [])

def encryptRequest (self : WalletEncryption Secret) (plain : Bytes) (entropy : Vector UInt8 32) (iv : Vector UInt8 12)
    (plainLimit wireLimit : Nat) : Except String String := do
  denyIf (plain.length > plainLimit) error
  let compact ← encryptBounded plain ⟨self.request, self.enc, none, []⟩ entropy iv plainLimit
  denyIf (compact.utf8ByteSize > wireLimit) error
  return compact

/-- A member among the ordered members of an object. -/
def insertMember (ms : List (String × Json.Value)) (key : String) (value : Json.Value) : List (String × Json.Value) :=
  ms.filter (·.1 < key) ++ (key, value) :: ms.filter (key < ·.1)

/-- The text that is encrypted for a payload. -/
def requestPlain (self : WalletEncryption Secret) : Json.Value → Except String Bytes
  | .obj ms => do
    denyIf (ms.lookup "credential_response_encryption").isSome error
    return Text.bytes (Json.Value.obj (insertMember ms "credential_response_encryption" self.parameters)).render
  | _ => .error error

def prepareBoundedRequest (self : WalletEncryption Secret) (payload : Json.Value) (entropy : Vector UInt8 32) (iv : Vector UInt8 12)
    (plainLimit wireLimit : Nat) : Except String String := do
  let plain ← self.requestPlain payload
  self.encryptRequest plain entropy iv plainLimit wireLimit

def prepareRequest (self : WalletEncryption Secret) (payload : Json.Value) (entropy : Vector UInt8 32) (iv : Vector UInt8 12) :
    Except String String := self.prepareBoundedRequest payload entropy iv requestPlainLimit requestWireLimit

def prepareBatchRequest (self : WalletEncryption Secret) (payload : Json.Value) (entropy : Vector UInt8 32) (iv : Vector UInt8 12) :
    Except String String := self.prepareBoundedRequest payload entropy iv batchRequestPlainLimit batchRequestWireLimit

def decryptResponse (self : WalletEncryption Secret) (compact : String) : Except String Bytes :=
  decryptMessage compact self.recipient responseWireLimit responsePlainLimit (some self.enc) self.deflate

def decryptBatchResponse (self : WalletEncryption Secret) (compact : String) : Except String Bytes :=
  decryptMessage compact self.recipient batchResponseWireLimit batchResponsePlainLimit (some self.enc) self.deflate

end WalletEncryption

end

end Mikaki.Identity.Encryption
