import Mikaki.Vault.Browser

/-!
# Envelopes that a service opens

The service takes every binding from its own state, and opens a frame only
under the fields that it was sealed with.
-/

namespace Mikaki.Vault.Service

open Browser (Bytes Primitives decrypt)

structure RecordSource where
  storageVersion : UInt8
  origin : String
  ownerId : String
  vaultId : String
  collectionId : String
  recordId : String
  kind : String
  revision : UInt64
  ciphertextSha256 : String
  deriving DecidableEq

structure RecordAuthority where
  keyGeneration : UInt64
  ownerKeyRevision : UInt64
  deriving DecidableEq

/-- `(1..=9_007_199_254_740_991).contains(&n)` -/
def inRange (n : UInt64) : Bool := 1 ≤ n && n ≤ 9007199254740991

def isIdentifier (s : String) : Bool :=
  !(Text.bytes s).isEmpty && (Text.bytes s).length ≤ 128 && (Text.bytes s).all fun b => Text.isAlphanumeric b || b == 45 || b == 95

def isDigest (s : String) : Bool :=
  match Base64url.decode s with
  | some b => b.length == 32 && Base64url.encode b == s
  | none => false

section
variable [Primitives]

def isOrigin (s : String) : Bool :=
  match Browser.parseUrl s with
  | some (scheme, origin) => scheme == "https" && origin == s
  | none => false

def RecordSource.valid (self : RecordSource) : Bool :=
  self.storageVersion == 2 && isOrigin self.origin && isIdentifier self.ownerId && isIdentifier self.vaultId &&
    self.collectionId == "personal" && self.recordId == "name" && self.kind == "name" && inRange self.revision && isDigest self.ciphertextSha256

end

def RecordAuthority.valid (self : RecordAuthority) : Bool := inRange self.keyGeneration && inRange self.ownerKeyRevision

structure RecordBinding where
  source : RecordSource
  authority : RecordAuthority
  ciphertext : Bytes

def version : UInt8 := 2

def suite : Bytes := [0, 0x41, 0, 1, 0, 2]

def domain : Bytes := Text.bytes "mikaki-vault-record-recipient-envelope-v2-draft04"

def frameBytes : Nat := 1187

def encEnd : Nat := 1139

def context : List Bytes → Option Bytes
  | [] => some []
  | part :: parts => do
    guard (part.length < 2 ^ 16)
    let rest ← context parts
    return Framing.be16 part.length ++ part ++ rest

def envelopeInfo (keyId : Bytes) (generation : UInt64) : Option Bytes :=
  context [domain, [version], suite, Text.bytes "userinfo", keyId, Framing.be64 generation.toNat]

def envelopeAad (source : RecordSource) (authority : RecordAuthority) (digest : Bytes) : Option Bytes :=
  context [Text.bytes "2", Text.bytes source.origin, Text.bytes source.ownerId, Text.bytes source.vaultId, Text.bytes source.collectionId,
    Text.bytes source.recordId, Text.bytes source.kind, Framing.be64 source.revision.toNat, digest,
    Framing.be64 authority.keyGeneration.toNat, Framing.be64 authority.ownerKeyRevision.toNat, Text.bytes "userinfo",
    Text.bytes "oidc.userinfo.name"]

def contentAad (source : RecordSource) : Option Bytes :=
  context [Text.bytes "mikaki-vault-record-content", Text.bytes "2", Text.bytes source.origin, Text.bytes source.ownerId,
    Text.bytes source.vaultId, Text.bytes source.collectionId, Text.bytes source.recordId, Text.bytes source.kind,
    Text.bytes (toString source.revision.toNat)]

/-! ## The key schedule -/

def hpkePrefix : Bytes := Text.bytes "HPKE-v1" ++ Text.bytes "HPKE" ++ [0, 0x41, 0, 1, 0, 2]

def label (name : String) (value : Bytes) : Bytes := hpkePrefix ++ Text.bytes name ++ value

/-- Both outputs fit one block. -/
def expand (prk scheduleContext : Bytes) (name : String) (length : UInt8) : Bytes :=
  (Sha.hmac256 prk ([0, length] ++ label name scheduleContext ++ [1])).take length.toNat

def schedule (shared info : Bytes) : Bytes × Bytes :=
  let pskHash := Sha.hmac256 (List.replicate 32 0) (label "psk_id_hash" [])
  let infoHash := Sha.hmac256 (List.replicate 32 0) (label "info_hash" info)
  let scheduleContext := [0] ++ pskHash ++ infoHash
  let prk := Sha.hmac256 shared (label "secret" [])
  (expand prk scheduleContext "key" 32, expand prk scheduleContext "base_nonce" 12)

/-! ## Opening -/

/-- The code units of a text in UTF-16. -/
def utf16Count (s : String) : Nat := (s.toList.map fun c => if c.toNat < 0x10000 then 1 else 2).sum

/-- The bytes from `a` to `b`. -/
def slice (bs : Bytes) (a b : Nat) : Bytes := (bs.take b).drop a

section
variable [Primitives]

/-- `nativeOpenHpke` -/
def openHpke (seed encapsulated info aad ciphertext : Bytes) : Option Bytes := do
  let shared ← Primitives.decapsulate seed encapsulated
  let (key, nonce) := schedule shared info
  decrypt key nonce aad ciphertext

/-- A text of bytes that are a key. -/
def toKey (bs : Bytes) : Option (Vector UInt8 32) := if h : bs.toArray.size = 32 then some ⟨bs.toArray, h⟩ else none

def openRecordDataKey (seed : Vector UInt8 64) (publicKey : Bytes) (keyId : String) (generation : UInt64) (frame : Bytes)
    (binding : RecordBinding) : Option (Vector UInt8 32) := do
  guard (inRange generation && binding.source.valid && binding.authority.valid &&
    Base64url.encode (Sha.sha256 binding.ciphertext) == binding.source.ciphertextSha256 && 29 ≤ binding.ciphertext.length &&
    binding.ciphertext.length ≤ 24 * 1024 && binding.ciphertext.head? == some 2 && publicKey.length == 1184 && frame.length == frameBytes &&
    frame.take 4 == Text.bytes "MKVR" && slice frame 4 5 == [version] && slice frame 5 11 == suite &&
    slice frame 43 51 == Framing.be64 generation.toNat)
  let derived ← Primitives.publicKey seed.toList
  guard (derived == publicKey)
  let expectedKeyId := Sha.sha256 publicKey
  guard (keyId == Base64url.encode expectedKeyId && slice frame 11 43 == expectedKeyId)
  let info ← envelopeInfo expectedKeyId generation
  let aad ← envelopeAad binding.source binding.authority (Sha.sha256 binding.ciphertext)
  let plaintext ← openHpke seed.toList (slice frame 51 encEnd) info aad (frame.drop encEnd)
  toKey plaintext

def decryptRecordName (dataKey : Vector UInt8 32) (source : RecordSource) (ciphertext : Bytes) : Option String := do
  guard (source.valid && 29 ≤ ciphertext.length && ciphertext.length ≤ 24 * 1024 && ciphertext.head? == some 2 &&
    Base64url.encode (Sha.sha256 ciphertext) == source.ciphertextSha256)
  let aad ← contentAad source
  let plaintext ← decrypt dataKey.toList (slice ciphertext 1 13) aad (ciphertext.drop 13)
  guard (!plaintext.isEmpty && plaintext.length ≤ 1024)
  let name ← Text.utf8 plaintext
  guard (utf16Count name ≤ 256)
  return name

end

end Mikaki.Vault.Service
