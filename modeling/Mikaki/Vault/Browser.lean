import Mikaki.Lib.Base64url
import Mikaki.Lib.Checks
import Mikaki.Lib.Framing
import Mikaki.Lib.Json
import Mikaki.Lib.Sha
import Mikaki.Lib.Text

/-!
# Records that a browser seals

A record is sealed under a key of its own, and the key of a shared name is
sealed once more for a service. Both bind what they seal to a context of
length-prefixed fields. A number that is no natural number is refused by every
check, so that numbers are natural here. The URL Standard, ML-KEM-768 and
AES-256-GCM are parameters.
-/

namespace Mikaki.Vault.Browser

open Checks
open Json (Value)

abbrev Bytes := List UInt8

class Primitives where
  /-- The scheme and the origin of a URL. -/
  parseUrl : String → Option (String × String)
  /-- The public key of a seed. -/
  publicKey : Bytes → Option Bytes
  /-- A ciphertext and the secret in it, for a public key and some randomness. -/
  encapsulate : Bytes → Bytes → Option (Bytes × Bytes)
  decapsulate : Bytes → Bytes → Option Bytes
  /-- AES-256-GCM with the key, the nonce and the associated data. -/
  encrypt : Bytes → Bytes → Bytes → Bytes → Bytes
  decrypt : Bytes → Bytes → Bytes → Bytes → Option Bytes

export Primitives (parseUrl encapsulate encrypt decrypt)

/-- A value, or what is thrown without one. -/
def orThrow {α : Type} (message : String) : Option α → Except String α
  | some a => .ok a
  | none => .error message

def maxSafe : Nat := 9007199254740991

def encodeBase64Url (bytes : Bytes) : String := Base64url.encode bytes

/-- What `atob` refuses is not told from what is not canonical. -/
def decodeBase64Url (value : String) : Except String Bytes := do
  denyIf (value.toList.all Base64url.urlSafe = false) "invalid base64url"
  orThrow "noncanonical base64url" (Base64url.decode value)

/-- `/^[A-Za-z0-9_-]{min,max}$/` -/
def letters (min max : Nat) (s : String) : Bool := min ≤ s.toList.length && s.toList.length ≤ max && s.toList.all Base64url.urlSafe

/-! ## Sources -/

structure VaultAttributeSource where
  origin : String
  ownerId : String
  attributeId : String
  revision : Nat
  ciphertextSha256 : String

structure VaultRecordSource where
  origin : String
  ownerId : String
  vaultId : String
  collectionId : String
  recordId : String
  kind : String
  revision : Nat
  ciphertextSha256 : String

inductive VaultSource where
  | ofAttribute (source : VaultAttributeSource)
  | ofRecord (source : VaultRecordSource)

structure VaultRecordAuthority where
  keyGeneration : Nat
  ownerKeyRevision : Nat

/-- The members of an object with exactly the given names. -/
def object (value : Value) (names : List String) : Except String (String → Value) :=
  match value with
  | .obj ms =>
    if ms.length ≠ names.length ∨ ∃ n ∈ names, (ms.lookup n).isNone then .error "Invalid Vault source"
    else .ok fun n => (ms.lookup n).getD .null
  | _ => .error "Invalid Vault source"

def identifier : Value → Except String String
  | .str s => if letters 1 128 s then .ok s else .error "Invalid Vault source identifier"
  | _ => .error "Invalid Vault source identifier"

def positive : Value → Except String Nat
  | .num n => if 1 ≤ n ∧ n ≤ maxSafe then .ok n else .error "Invalid Vault source revision"
  | _ => .error "Invalid Vault source revision"

def target : Value → Except String String
  | .str s => if s = "name" ∨ s = "owner_note" then .ok s else .error "Unsupported Vault source"
  | _ => .error "Unsupported Vault source"

def storageVersion : Value → Except String Nat
  | .obj ms =>
    match ms.lookup "storage_version" with
    | none => .error "Explicit Vault storage version required"
    | some (.num n) => if n = 1 ∨ n = 2 then .ok n else .error "Unsupported Vault source version"
    | some _ => .error "Unsupported Vault source version"
  | _ => .error "Explicit Vault storage version required"

def sourceDigest : Value → Except String String
  | .str s => do
    denyIf (letters 43 43 s = false) "Invalid Vault source digest"
    let bytes ← decodeBase64Url s
    denyIf (bytes.length ≠ 32) "Invalid Vault source digest"
    return s
  | _ => .error "Invalid Vault source digest"

section
variable [Primitives]

def sourceOrigin : Value → Except String String
  | .str s => do
    let (scheme, origin) ← orThrow "Invalid URL" (parseUrl s)
    denyIf (scheme ≠ "https" ∨ origin ≠ s) "Invalid Vault source origin"
    return origin
  | _ => .error "Invalid Vault source origin"

def parseVaultSource (value : Value) : Except String VaultSource := do
  let version ← storageVersion value
  let input ← object value (["storage_version", "origin", "owner_id"] ++
    (if version = 1 then ["attribute_id"] else ["vault_id", "collection_id", "record_id", "kind"]) ++ ["revision", "ciphertext_sha256"])
  let origin ← sourceOrigin (input "origin")
  let ciphertextSha256 ← sourceDigest (input "ciphertext_sha256")
  let ownerId ← identifier (input "owner_id")
  let revision ← positive (input "revision")
  if version = 1 then
    let attributeId ← target (input "attribute_id")
    return .ofAttribute { origin, ownerId, attributeId, revision, ciphertextSha256 }
  else
    let record ← target (input "record_id")
    denyIf ((input "collection_id").asStr ≠ some "personal" ∨ (input "kind").asStr ≠ some record) "Unsupported Vault source target"
    let vaultId ← identifier (input "vault_id")
    return .ofRecord
      { origin, ownerId, vaultId, collectionId := "personal", recordId := record, kind := record, revision, ciphertextSha256 }

def parseVaultRecordSource (value : Value) : Except String VaultRecordSource := do
  match ← parseVaultSource value with
  | .ofRecord source => return source
  | .ofAttribute _ => .error "Vault record source required"

end

def parseVaultRecordAuthority (value : Value) : Except String VaultRecordAuthority := do
  let input ← object value ["key_generation", "owner_key_revision"]
  let keyGeneration ← positive (input "key_generation")
  let ownerKeyRevision ← positive (input "owner_key_revision")
  return { keyGeneration, ownerKeyRevision }

def vaultCiphertextDigest (ciphertext : String) : Except String String := do
  denyIf (ciphertext.toList.length > 32768) "Invalid Vault ciphertext size"
  let bytes ← decodeBase64Url ciphertext
  denyIf (bytes.length < 29 ∨ bytes.length > 24576) "Invalid Vault ciphertext size"
  return encodeBase64Url (Sha.sha256 bytes)

/-! ## Records of an owner -/

structure OwnerKeyContext where
  origin : String
  ownerId : String
  vaultId : String
  keyGeneration : Nat

structure OwnerRecordContext where
  collectionId : String
  recordId : String
  kind : String
  revision : Nat

structure OwnerRecord where
  ciphertext : String
  keyEnvelope : String

/-- A key of Web Crypto; `raw` is what it encrypts with, of as many bits as the key says. -/
structure CryptoKey where
  type : String
  extractable : Bool
  algorithm : String
  length : Option Nat
  usages : List String
  raw : Bytes
  sized : ∀ n ∈ length, 8 * raw.length = n

def recordMaxBytes (item : OwnerRecordContext) : Nat :=
  if item.collectionId = "workspace-snapshots" ∧ item.kind = "workspace-snapshot" then 2 * 1024 * 1024 else 24 * 1024

def positiveNumber (value : Nat) : Except String Unit := denyIf (value < 1 ∨ value > maxSafe) "invalid generation/revision"

def id (value : String) : Except String Unit := denyIf (letters 1 128 value = false) "invalid identifier"

def recordContext (value : OwnerRecordContext) : Except String OwnerRecordContext := do
  id value.collectionId
  id value.recordId
  id value.kind
  positiveNumber value.revision
  return value

/-- The fields behind the length of each in 16 bits. -/
def prefixAll (message : String) (parts : List Bytes) : Except String Bytes := do
  denyIf (∃ part ∈ parts, part.length > 65535) message
  return parts.flatMap Framing.prefixed16

def fields (parts : List String) : Except String Bytes := prefixAll "context too long" (parts.map Text.bytes)

def ownerHandle (key : CryptoKey) : Except String Unit :=
  denyIf (key.type ≠ "secret" ∨ key.extractable = true ∨ key.algorithm ≠ "AES-GCM" ∨ key.length ≠ some 256 ∨ "encrypt" ∉ key.usages ∨
    "decrypt" ∉ key.usages) "invalid owner handle"

section
variable [Primitives]

def ownerKeyContext (value : OwnerKeyContext) : Except String OwnerKeyContext := do
  let (scheme, origin) ← orThrow "Invalid URL" (parseUrl value.origin)
  denyIf (scheme ≠ "https" ∨ origin ≠ value.origin) "invalid origin"
  id value.ownerId
  id value.vaultId
  positiveNumber value.keyGeneration
  return value

def contextFields (context : OwnerKeyContext) : Except String (List String) := do
  let c ← ownerKeyContext context
  return ["2", c.origin, c.ownerId, c.vaultId, toString c.keyGeneration]

/-- The content of a record stays bound to the same fields where only the owner's key changes. -/
def recordAad (purpose : String) (context : OwnerKeyContext) (item : OwnerRecordContext) : Except String Bytes := do
  let r ← recordContext item
  let c ← ownerKeyContext context
  let ownerFields ← if purpose = "mikaki-vault-record-content" then .ok ["2", c.origin, c.ownerId, c.vaultId] else contextFields c
  fields (purpose :: ownerFields ++ [r.collectionId, r.recordId, r.kind, toString r.revision])

def sealOwnerRecord (plaintext : Bytes) (key : CryptoKey) (context : OwnerKeyContext) (item : OwnerRecordContext) (raw : Vector UInt8 32)
    (nonce wrapNonce : Vector UInt8 12) : Except String OwnerRecord := do
  ownerHandle key
  denyIf (plaintext.length > recordMaxBytes item - 1 - 12 - 16) "record too large"
  let content ← recordAad "mikaki-vault-record-content" context item
  let keyAad ← recordAad "mikaki-vault-record-key" context item
  let ciphertext := encrypt raw.toList nonce.toList content plaintext
  let wrapped := encrypt key.raw wrapNonce.toList keyAad raw.toList
  return ⟨encodeBase64Url (2 :: nonce.toList ++ ciphertext), encodeBase64Url (2 :: wrapNonce.toList ++ wrapped)⟩

end

/-! ## Recipients -/

structure RecordUserInfoRecipient where
  keyId : String
  publicKey : String
  generation : Nat
  revision : Nat

def recipientFields : String := "algorithm,envelope_suite,generation,key_id,public_key,revision,service_id"

/-- A safe integer from one on. -/
def counter : Option Value → Option Nat
  | some (.num n) => if 1 ≤ n ∧ n ≤ maxSafe then some n else none
  | _ => none

def canonicalBase64Url (value : String) : Except String Bytes := do
  denyIf (value = "" ∨ value.toList.all Base64url.urlSafe = false) "invalid recipient key encoding"
  orThrow "noncanonical recipient key encoding" (Base64url.decode value)

/-- The texts and the numbers of an entry. -/
def recipientMembers (ms : List (String × Value)) : Option RecordUserInfoRecipient := do
  let text (name : String) : Option String := (ms.lookup name).bind Value.asStr
  guard (text "service_id" = some "userinfo" ∧ text "algorithm" = some "ML-KEM-768" ∧
    text "envelope_suite" = some "ML-KEM-768-HKDF-SHA256-AES-256-GCM-draft04-record-v2")
  let keyId ← text "key_id"
  guard (letters 43 43 keyId)
  let publicKey ← text "public_key"
  let generation ← counter (ms.lookup "generation")
  let revision ← counter (ms.lookup "revision")
  return { keyId, publicKey, generation, revision }

def validateRecordUserInfoRecipient : Value → Except String RecordUserInfoRecipient
  | .obj ms => do
    denyIf (",".intercalate (ms.map Prod.fst).mergeSort ≠ recipientFields) "invalid recipient fields"
    let item ← orThrow "invalid recipient directory" (recipientMembers ms)
    let publicKey ← canonicalBase64Url item.publicKey
    denyIf (publicKey.length ≠ 1184) "invalid recipient key length"
    denyIf (Base64url.encode (Sha.sha256 publicKey) ≠ item.keyId) "recipient key ID mismatch"
    return item
  | _ => .error "invalid recipient directory"

/-! ## The envelope of a recipient -/

def version : Bytes := [2]

def suite : Bytes := [0, 0x41, 0, 1, 0, 2]

def magic : Bytes := Text.bytes "MKVR"

def domain : Bytes := Text.bytes "mikaki-vault-record-recipient-envelope-v2-draft04"

def service : Bytes := Text.bytes "userinfo"

def purpose : Bytes := Text.bytes "oidc.userinfo.name"

def frameBytes : Nat := 1187

structure RecordUserInfoWrapContext where
  source : Value
  authority : Value
  ciphertext : String

def u64 (value : Nat) : Except String Bytes := do
  denyIf (value < 1 ∨ value > maxSafe) "invalid envelope counter"
  return Framing.be64 value

def context (parts : List Bytes) : Except String Bytes := prefixAll "envelope context too long" parts

def extract (salt ikm : Bytes) : Bytes := Sha.hmac256 (if salt.length = 0 then List.replicate 32 0 else salt) ikm

/-- The blocks of an expansion from a counter on. -/
def expandBlocks (prk info : Bytes) : Nat → Nat → Bytes → Except String (List Bytes)
  | 0, _, _ => .ok []
  | n + 1, counter, previous => do
    denyIf (counter > 255) "HPKE output too long"
    let block := Sha.hmac256 prk (previous ++ info ++ [UInt8.ofNat counter])
    let blocks ← expandBlocks prk info n (counter + 1) block
    return block :: blocks

def expand (prk info : Bytes) (size : Nat) : Except String Bytes := do
  let blocks ← expandBlocks prk info ((size + 31) / 32) 1 []
  return blocks.flatten.take size

def suiteId : Bytes := Text.bytes "HPKE" ++ suite

def hpkeVersion : Bytes := Text.bytes "HPKE-v1"

def labeledExtract (salt : Bytes) (label : String) (ikm : Bytes) : Bytes := extract salt (hpkeVersion ++ suiteId ++ Text.bytes label ++ ikm)

def labeledExpand (prk : Bytes) (label : String) (value : Bytes) (size : Nat) : Except String Bytes :=
  expand prk (Framing.be16 size ++ hpkeVersion ++ suiteId ++ Text.bytes label ++ value) size

/-- The key and the nonce that a shared secret gives. -/
def schedule (sharedSecret info : Bytes) : Except String (Bytes × Bytes) := do
  let scheduleContext := [0] ++ labeledExtract [] "psk_id_hash" [] ++ labeledExtract [] "info_hash" info
  let secret := labeledExtract sharedSecret "secret" []
  let key ← labeledExpand secret "key" scheduleContext 32
  let nonce ← labeledExpand secret "base_nonce" scheduleContext 12
  return (key, nonce)

def envelopeInfo (keyId generation : Bytes) : Except String Bytes := context [domain, version, suite, service, keyId, generation]

def envelopeAad (source : VaultRecordSource) (authority : VaultRecordAuthority) : Except String Bytes := do
  let revision ← u64 source.revision
  let digest ← decodeBase64Url source.ciphertextSha256
  let keyGeneration ← u64 authority.keyGeneration
  let ownerKeyRevision ← u64 authority.ownerKeyRevision
  context [Text.bytes "2", Text.bytes source.origin, Text.bytes source.ownerId, Text.bytes source.vaultId, Text.bytes source.collectionId,
    Text.bytes source.recordId, Text.bytes source.kind, revision, digest, keyGeneration, ownerKeyRevision, service, purpose]

section
variable [Primitives]

/-- The randomness of the encapsulation is an argument. -/
def sealRecordUserInfoDataKey (dataKey : Bytes) (directoryEntry : Value) (binding : RecordUserInfoWrapContext) (coins : Bytes) :
    Except String Bytes := do
  let source ← parseVaultRecordSource binding.source
  let authority ← parseVaultRecordAuthority binding.authority
  denyIf (dataKey.length ≠ 32 ∨ source.recordId ≠ "name" ∨ source.kind ≠ "name") "UserInfo requires the exact saved name record"
  let body ← decodeBase64Url binding.ciphertext
  denyIf (body.head? ≠ some 2) "UserInfo requires record-v2 ciphertext"
  let digest ← vaultCiphertextDigest binding.ciphertext
  denyIf (digest ≠ source.ciphertextSha256) "Selected ciphertext digest mismatch"
  let recipient ← validateRecordUserInfoRecipient directoryEntry
  let publicKey ← decodeBase64Url recipient.publicKey
  let keyId ← decodeBase64Url recipient.keyId
  let generation ← u64 recipient.generation
  let info ← envelopeInfo keyId generation
  let aad ← envelopeAad source authority
  let (encapsulated, sharedSecret) ← orThrow "invalid public key" (encapsulate publicKey coins)
  let (key, nonce) ← schedule sharedSecret info
  let frame := magic ++ version ++ suite ++ keyId ++ generation ++ encapsulated ++ encrypt key nonce aad dataKey
  denyIf (frame.length ≠ frameBytes) "invalid recipient envelope length"
  return frame

end

end Mikaki.Vault.Browser
