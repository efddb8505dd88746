import Mikaki.Vault.OwnerRecordsSound
import Mikaki.Vault.RecordsAlone

/-!
# What an owner saves

A browser seals what its owner saves and sends it with the revision that it
replaces; what it reads back it checks against the owner's key before it opens
it. The lease of the key is given here, and a response is the status, the
entity tag and the JSON that the service answers with.
-/

namespace Mikaki.Vault.OwnerRecordStore

open Checks
open Browser (Bytes Primitives OwnerKeyContext OwnerRecordContext OwnerRecord CryptoKey orThrow)
open Json (Value)
open Records

structure OwnerRecordTarget where
  collectionId : String
  recordId : String
  kind : String

/-- The record of a target at a revision. -/
def OwnerRecordTarget.item (self : OwnerRecordTarget) (revision : Nat) : OwnerRecordContext :=
  ⟨self.collectionId, self.recordId, self.kind, revision⟩

/-- What the constructor of the store asks of a target. -/
def OwnerRecordTarget.check (self : OwnerRecordTarget) : Except String Unit :=
  denyIf (Browser.letters 1 128 self.collectionId = false ∨ Browser.letters 1 128 self.recordId = false ∨
    Browser.letters 1 128 self.kind = false) "invalid target"

/-- What `lease` gives: the key of a session, and its context with the revision of the owner's key. -/
structure Lease where
  key : CryptoKey
  context : OwnerKeyContext
  revision : Nat

inductive Method where
  | put
  | delete
  deriving DecidableEq

structure PreparedOwnerMutation where
  method : Method
  expectedRevision : Nat
  operationId : String
  body : String

structure OwnerRecordHead where
  revision : Nat
  deleted : Bool
  record : Option OwnerRecord

/-- What is drawn for a mutation. -/
structure Random where
  raw : Vector UInt8 32
  nonce : Vector UInt8 12
  wrapNonce : Vector UInt8 12
  operation : Vector UInt8 32

def deleteBody (lease : Lease) (item : OwnerRecordContext) : Value :=
  .obj [("format_version", .num 2), ("vault_id", .str lease.context.vaultId), ("key_generation", .num lease.context.keyGeneration),
    ("owner_key_revision", .num lease.revision), ("kind", .str item.kind), ("revision", .num item.revision)]

section
variable [Primitives]

/-- `prepare` -/
def prepare (target : OwnerRecordTarget) (lease : Lease) (method : Method) (expectedRevision : Nat) (plaintext : Option Bytes) (random : Random) :
    Except String PreparedOwnerMutation := do
  denyIf (expectedRevision ≥ Browser.maxSafe ∨ (method = .delete ∧ expectedRevision = 0)) "invalid_record"
  let item := target.item (expectedRevision + 1)
  match method with
  | .put => do
    let plaintext ← orThrow "invalid_record" plaintext
    let record ← Browser.sealOwnerRecord plaintext lease.key lease.context item random.raw random.nonce random.wrapNonce
    return ⟨.put, expectedRevision, Base64url.encode random.operation.toList, (Browser.putBody lease.context lease.revision item record).render⟩
  | .delete => return ⟨.delete, expectedRevision, Base64url.encode random.operation.toList, (deleteBody lease item).render⟩

end

/-- What `commit` sends, from a page of the owner's origin. -/
def PreparedOwnerMutation.request (self : PreparedOwnerMutation) (origin cookie : String) (clock : Nat → Option Nat) : Request :=
  { bucket := true, origin := some origin, url := origin
    ifNoneMatch := if self.expectedRevision = 0 then some "*" else none
    ifMatch := if self.expectedRevision = 0 then none else some (quoted self.expectedRevision)
    operation := some self.operationId, cookie := some cookie, contentType := some "application/json", body := some self.body, clock }

/-- What `read` sends. -/
def readRequest (origin cookie : String) (clock : Nat → Option Nat) : Request :=
  { bucket := true, origin := none, url := origin, ifNoneMatch := none, ifMatch := none, operation := none, cookie := some cookie
    contentType := none, body := none, clock }

/-! ## Responses -/

structure Response where
  status : Nat
  etag : Option String
  body : Value

def Response.ok (self : Response) : Bool := 200 ≤ self.status && self.status ≤ 299

/-- `outcome` -/
def outcomeResponse (o : Outcome) : Response := ⟨200, some (quoted o.1), .obj [("revision", .num o.1.toNat), ("deleted", .bool o.2)]⟩

/-- What `get` answers. -/
def selectedResponse (collection record : String) : Selected → Response
  | .live root head bytes =>
    ⟨200, some (quoted head.revision), .obj [("format_version", .num 2), ("owner_id", .str head.accountId), ("origin", .str root.origin),
      ("vault_id", .str root.vaultId), ("key_generation", .num root.keyGeneration.toNat), ("owner_key_revision", .num root.revision.toNat),
      ("collection_id", .str collection), ("record_id", .str record), ("kind", .str head.kind), ("revision", .num head.revision.toNat),
      ("ciphertext", .str (Base64url.encode bytes)), ("key_envelope", .str (head.keyEnvelope.getD ""))]⟩
  | .deleted head => ⟨404, some (quoted head.revision), .obj [("error", .str "not_found"), ("deleted", .bool true)]⟩

/-- `error` -/
def errorResponse (status : Nat) (code : String) : Response := ⟨status, none, .obj [("error", .str code)]⟩

/-- `object` -/
def object : Value → Except String (List (String × Value))
  | .obj ms => .ok ms
  | _ => .error "invalid_record"

def text (name : String) (ms : List (String × Value)) : Option String := (ms.lookup name).bind Value.asStr

def number (name : String) (ms : List (String × Value)) : Option Nat :=
  match ms.lookup name with
  | some (.num n) => some n
  | _ => none

def flag (name : String) (ms : List (String × Value)) : Option Bool :=
  match ms.lookup name with
  | some (.bool b) => some b
  | _ => none

/-- The number between the quotes of an entity tag. -/
def tagNumber (etag : Option String) : Option Nat := do
  let digits ← Request.unquote (← etag)
  let n := Nat.ofDigitChars 10 digits.toList 0
  if digits.toList ≠ [] ∧ digits.toList.all Char.isDigit = true ∧ digits.toList.head? ≠ some '0' ∧ n ≤ Browser.maxSafe then some n else none

/-- `revision` -/
def Response.revision (self : Response) : Except String Nat := orThrow "invalid_record" (tagNumber self.etag)

/-- The code that `failure` throws. -/
def Response.failure (self : Response) : String :=
  match self.body with
  | .obj ms => (text "error" ms).getD "storage_unavailable"
  | _ => "storage_unavailable"

/-- `commit`, from its response on. -/
def commit (operation : PreparedOwnerMutation) (response : Response) : Except String (Nat × Bool) := do
  denyIf (response.ok = false) response.failure
  let value ← object response.body
  let revision ← response.revision
  denyIf (number "revision" value ≠ some (operation.expectedRevision + 1) ∨ number "revision" value ≠ some revision ∨
    flag "deleted" value ≠ some (decide (operation.method = .delete))) "invalid_record"
  return (revision, decide (operation.method = .delete))

/-- The record in an answer to `read`, whose owner's key must be the leased one. -/
def readLive (target : OwnerRecordTarget) (lease : Lease) (response : Response) (value : List (String × Value)) :
    Except String OwnerRecordHead := do
  denyIf (text "owner_id" value ≠ some lease.context.ownerId ∨ text "origin" value ≠ some lease.context.origin ∨
    text "vault_id" value ≠ some lease.context.vaultId ∨ number "key_generation" value ≠ some lease.context.keyGeneration ∨
    number "owner_key_revision" value ≠ some lease.revision) "owner_key_changed"
  let revision ← response.revision
  denyIf (number "format_version" value ≠ some 2 ∨ text "collection_id" value ≠ some target.collectionId ∨
    text "record_id" value ≠ some target.recordId ∨ text "kind" value ≠ some target.kind ∨ number "revision" value ≠ some revision)
    "invalid_record"
  let ciphertext ← orThrow "invalid_record" (text "ciphertext" value)
  let keyEnvelope ← orThrow "invalid_record" (text "key_envelope" value)
  return ⟨revision, false, some ⟨ciphertext, keyEnvelope⟩⟩

/-- The answer that there is no record, or none any more. -/
def readMissing (response : Response) (value : List (String × Value)) : Except String OwnerRecordHead := do
  denyIf (text "error" value ≠ some "not_found") "invalid_record"
  if flag "deleted" value = some true then do
    let revision ← response.revision
    return ⟨revision, true, none⟩
  else do
    denyIf (value.length ≠ 1 ∨ response.etag.isSome = true) "invalid_record"
    return ⟨0, false, none⟩

/-- `read`, from its response on. -/
def read (target : OwnerRecordTarget) (lease : Lease) (response : Response) : Except String OwnerRecordHead := do
  denyIf (response.status ≠ 404 ∧ response.ok = false) response.failure
  let value ← object response.body
  if response.status = 404 then readMissing response value else readLive target lease response value

section
variable [Primitives]

def readPlaintext (target : OwnerRecordTarget) (lease : Lease) (head : OwnerRecordHead) : Except String Bytes := do
  let record ← orThrow "not_found" (head.record.filter fun _ => !head.deleted)
  Browser.openOwnerRecord record.json lease.key lease.context (target.item head.revision)

end

end Mikaki.Vault.OwnerRecordStore
