import Mikaki.Vault.RecordEnvelope

/-!
# Keys and records of an owner

The root key of a vault is wrapped for a credential with what its PRF gives,
and may be wrapped again for another one. A record has a key of its own, which
is wrapped under the root key: it stays the same where only the root key
changes. The randomness of an operation is an argument.
-/

namespace Mikaki.Vault.Browser

open Checks
open Json (Value)

/-- HKDF-SHA256 with one block of output. -/
def hkdf256 (ikm salt info : Bytes) : Bytes := Sha.hmac256 (Sha.hmac256 salt ikm) (info ++ [1])

def decode (value : String) (min max : Nat) : Except String Bytes := do
  denyIf (value.toList.length > (max * 4 + 2) / 3) "invalid encoding size"
  let bytes ← decodeBase64Url value
  denyIf (bytes.length < min ∨ bytes.length > max) "invalid encoding size"
  return bytes

/-- The members of an object with exactly the given names. -/
def exact (value : Value) (names : List String) : Except String (String → Value) :=
  match value with
  | .obj ms =>
    if ms.length ≠ names.length ∨ ∃ n ∈ names, (ms.lookup n).isNone then .error "invalid envelope" else .ok fun n => (ms.lookup n).getD .null
  | _ => .error "invalid envelope"

/-- `value === 2` -/
def isTwo : Value → Bool
  | .num n => n == 2
  | _ => false

/-! ## The owner's key -/

structure OwnerKeyEnvelope where
  credentialId : String
  prfInput : String
  salt : String
  nonce : String
  wrappedKey : String

def OwnerKeyEnvelope.json (self : OwnerKeyEnvelope) : Value :=
  .obj [("format_version", .num 2), ("kind", .str "owner-key"), ("credential_id", .str self.credentialId), ("prf_input", .str self.prfInput),
    ("salt", .str self.salt), ("nonce", .str self.nonce), ("wrapped_key", .str self.wrappedKey)]

def parseOwnerKeyEnvelope (value : Value) : Except String OwnerKeyEnvelope := do
  let input ← exact value ["format_version", "kind", "credential_id", "prf_input", "salt", "nonce", "wrapped_key"]
  denyIf (isTwo (input "format_version") = false ∨ (input "kind").asStr ≠ some "owner-key") "unsupported owner-key format"
  let credentialId ← orThrow "invalid envelope" (input "credential_id").asStr
  let prfInput ← orThrow "invalid envelope" (input "prf_input").asStr
  let salt ← orThrow "invalid envelope" (input "salt").asStr
  let nonce ← orThrow "invalid envelope" (input "nonce").asStr
  let wrappedKey ← orThrow "invalid envelope" (input "wrapped_key").asStr
  let _ ← decode credentialId 1 512
  let _ ← decode prfInput 32 32
  let _ ← decode salt 32 32
  let _ ← decode nonce 12 12
  let _ ← decode wrappedKey 48 48
  return { credentialId, prfInput, salt, nonce, wrappedKey }

/-- A key that was imported cannot be exported. -/
def importOwnerKey (raw : Bytes) : Except String CryptoKey :=
  if h : raw.length = 32 then
    .ok { type := "secret", extractable := false, algorithm := "AES-GCM", length := some 256, usages := ["encrypt", "decrypt"], raw
          sized := by rintro n ⟨⟩; rw [h] }
  else .error "invalid owner key"

def ownerLoginPrfInput : Bytes := Text.bytes "mikaki-vault-signin-prf-input-v1"

section
variable [Primitives]

def wrapContext (purpose : String) (context : OwnerKeyContext) (credential input : Bytes) : Except String Bytes := do
  let c ← contextFields context
  fields (purpose :: c ++ [encodeBase64Url credential, encodeBase64Url input])

def kek (output salt : Bytes) (context : OwnerKeyContext) (credential input : Bytes) : Except String Bytes := do
  denyIf (output.length ≠ 32) "PRF output unavailable"
  let info ← wrapContext "mikaki-vault-owner-kek" context credential input
  return hkdf256 output salt info

def wrap (raw : Bytes) (context : OwnerKeyContext) (credential input output : Bytes) (salt : Vector UInt8 32) (nonce : Vector UInt8 12) :
    Except String OwnerKeyEnvelope := do
  let context ← ownerKeyContext context
  denyIf (credential.length < 1 ∨ credential.length > 512 ∨ input.length ≠ 32) "invalid credential/input"
  let key ← kek output salt.toList context credential input
  let aad ← wrapContext "mikaki-vault-owner-wrap" context credential input
  return {
    credentialId := encodeBase64Url credential
    prfInput := encodeBase64Url input
    salt := encodeBase64Url salt.toList
    nonce := encodeBase64Url nonce.toList
    wrappedKey := encodeBase64Url (encrypt key nonce.toList aad raw) }

def unwrap (value : Value) (context : OwnerKeyContext) (expected output : Bytes) : Except String Bytes := do
  let context ← ownerKeyContext context
  let envelope ← parseOwnerKeyEnvelope value
  let credential ← decode envelope.credentialId 1 512
  let input ← decode envelope.prfInput 32 32
  denyIf (encodeBase64Url expected ≠ envelope.credentialId) "wrong credential"
  let salt ← decode envelope.salt 32 32
  let key ← kek output salt context credential input
  let nonce ← decode envelope.nonce 12 12
  let aad ← wrapContext "mikaki-vault-owner-wrap" context credential input
  let wrapped ← decode envelope.wrappedKey 48 48
  orThrow "OperationError" (decrypt key nonce aad wrapped)

def createOwnerKey (context : OwnerKeyContext) (credential input output : Bytes) (raw salt : Vector UInt8 32) (nonce : Vector UInt8 12) :
    Except String (OwnerKeyEnvelope × CryptoKey) := do
  let envelope ← wrap raw.toList context credential input output salt nonce
  let key ← importOwnerKey raw.toList
  return (envelope, key)

def openOwnerKey (value : Value) (context : OwnerKeyContext) (expected output : Bytes) : Except String CryptoKey := do
  let raw ← unwrap value context expected output
  importOwnerKey raw

def rewrapOwnerKey (value : Value) (context : OwnerKeyContext) (source sourceOutput target targetInput targetOutput : Bytes)
    (salt : Vector UInt8 32) (nonce : Vector UInt8 12) : Except String OwnerKeyEnvelope := do
  let context ← ownerKeyContext context
  denyIf (encodeBase64Url source = encodeBase64Url target) "different credential required"
  let raw ← unwrap value context source sourceOutput
  wrap raw context target targetInput targetOutput salt nonce

/-- One more wrap of the same root for the same credential. -/
def wrapOwnerKeyForLogin (value : Value) (context : OwnerKeyContext) (credential sourceOutput loginOutput : Bytes) (salt : Vector UInt8 32)
    (nonce : Vector UInt8 12) : Except String OwnerKeyEnvelope := do
  let raw ← unwrap value context credential sourceOutput
  wrap raw context credential ownerLoginPrfInput loginOutput salt nonce

end

/-! ## Records -/

def OwnerRecord.json (self : OwnerRecord) : Value :=
  .obj [("format_version", .num 2), ("ciphertext", .str self.ciphertext), ("key_envelope", .str self.keyEnvelope)]

/-- The texts of a record. -/
def parseOwnerRecord (value : Value) : Except String OwnerRecord := do
  let input ← exact value ["format_version", "ciphertext", "key_envelope"]
  denyIf (isTwo (input "format_version") = false) "unsupported record format"
  let ciphertext ← orThrow "invalid record" (input "ciphertext").asStr
  let keyEnvelope ← orThrow "invalid record" (input "key_envelope").asStr
  return { ciphertext, keyEnvelope }

section
variable [Primitives]

/-- The key of a record under the owner's key. -/
def recordKey (envelope : Bytes) (key : CryptoKey) (context : OwnerKeyContext) (item : OwnerRecordContext) : Except String Bytes := do
  let aad ← recordAad "mikaki-vault-record-key" context item
  orThrow "OperationError" (decrypt key.raw (Service.slice envelope 1 13) aad (envelope.drop 13))

def openOwnerRecord (value : Value) (key : CryptoKey) (context : OwnerKeyContext) (item : OwnerRecordContext) : Except String Bytes := do
  ownerHandle key
  let context ← ownerKeyContext context
  let item ← recordContext item
  let record ← parseOwnerRecord value
  let body ← decode record.ciphertext 29 (recordMaxBytes item)
  let envelope ← decode record.keyEnvelope 61 61
  denyIf (body.head? ≠ some 2 ∨ envelope.head? ≠ some 2) "invalid record version"
  let raw ← recordKey envelope key context item
  denyIf (raw.length ≠ 32) "invalid content key"
  let aad ← recordAad "mikaki-vault-record-content" context item
  orThrow "OperationError" (decrypt raw (Service.slice body 1 13) aad (body.drop 13))

/-- The same body under the next key of the owner. -/
def rewrapOwnerRecord (value : OwnerRecord) (sourceKey : CryptoKey) (sourceContext : OwnerKeyContext) (targetKey : CryptoKey)
    (targetContext : OwnerKeyContext) (item : OwnerRecordContext) (nonce : Vector UInt8 12) : Except String OwnerRecord := do
  let sourceContext ← ownerKeyContext sourceContext
  let targetContext ← ownerKeyContext targetContext
  let item ← recordContext item
  denyIf (sourceContext.origin ≠ targetContext.origin ∨ sourceContext.ownerId ≠ targetContext.ownerId ∨
    sourceContext.vaultId ≠ targetContext.vaultId ∨ targetContext.keyGeneration ≠ sourceContext.keyGeneration + 1) "invalid rotation context"
  ownerHandle targetKey
  let _ ← openOwnerRecord value.json sourceKey sourceContext item
  let envelope ← decode value.keyEnvelope 61 61
  let raw ← recordKey envelope sourceKey sourceContext item
  denyIf (raw.length ≠ 32) "invalid content key"
  let aad ← recordAad "mikaki-vault-record-key" targetContext item
  return ⟨value.ciphertext, encodeBase64Url (2 :: nonce.toList ++ encrypt targetKey.raw nonce.toList aad raw)⟩

/-- The recipient's envelope of a saved name, which is read before it is sealed. -/
def sealOwnerRecordUserInfoRecipient (value : OwnerRecord) (key : CryptoKey) (context : OwnerKeyContext) (selected selectedAuthority entry : Value)
    (coins : Bytes) : Except String Bytes := do
  let context ← ownerKeyContext context
  let source ← parseVaultRecordSource selected
  let authority ← parseVaultRecordAuthority selectedAuthority
  denyIf (source.recordId ≠ "name" ∨ source.kind ≠ "name" ∨ source.ownerId ≠ context.ownerId ∨ source.origin ≠ context.origin ∨
    source.vaultId ≠ context.vaultId ∨ authority.keyGeneration ≠ context.keyGeneration) "Wrong UserInfo record binding"
  let item : OwnerRecordContext := ⟨source.collectionId, source.recordId, source.kind, source.revision⟩
  let digest ← vaultCiphertextDigest value.ciphertext
  denyIf (digest ≠ source.ciphertextSha256) "Selected ciphertext digest mismatch"
  let plaintext ← openOwnerRecord value.json key context item
  let name ← orThrow "TypeError" (Text.utf8 plaintext)
  denyIf (name = "" ∨ Service.utf16Count name > 256 ∨ plaintext.length > 1024) "Invalid saved name"
  let envelope ← decode value.keyEnvelope 61 61
  let raw ← recordKey envelope key context item
  sealRecordUserInfoDataKey raw entry ⟨selected, selectedAuthority, value.ciphertext⟩ coins

end

/-! ## The body of a write -/

/-- `OwnerRecordStore.prepare`: what is sent for a record that was sealed. -/
def putBody (context : OwnerKeyContext) (ownerKeyRevision : Nat) (item : OwnerRecordContext) (record : OwnerRecord) : Value :=
  .obj [("format_version", .num 2), ("vault_id", .str context.vaultId), ("key_generation", .num context.keyGeneration),
    ("owner_key_revision", .num ownerKeyRevision), ("kind", .str item.kind), ("revision", .num item.revision),
    ("ciphertext", .str record.ciphertext), ("key_envelope", .str record.keyEnvelope)]

end Mikaki.Vault.Browser
