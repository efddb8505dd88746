import Mikaki.Lib.Json
import Mikaki.Vault.OwnerKeys
import Mikaki.Vault.RecordEnvelope

/-!
# Records of an owner in the store

A record is a head in the database and an object in the bucket. A write first
registers the key of a new object as a candidate of the collector, uploads the
object, and then moves the head by one revision under a compare-and-swap; its
receipt answers retries. The collector deletes what is due and under no head.
-/

namespace Mikaki.Vault.Records

open Concurrent Concurrent.Prog Rows Transactions
open Browser (Bytes)

def suite : String := "PRF-HKDF-SHA256-AES256GCM-v2"

def maxCiphertext : Nat := 24 * 1024

def maxBody : Nat := 36 * 1024

def maxWorkspaceCiphertext : Nat := 2 * 1024 * 1024

def maxWorkspaceBody : Nat := 3 * 1024 * 1024

def maxSafe : Int := 9007199254740991

/-- How long a receipt is kept, in seconds. -/
def retention : Nat := 7776000

/-- How long the key of an object is left alone, in seconds. -/
def grace : Nat := 86400

def ciphertextLimit (collection kind : String) : Nat :=
  if collection = "workspace-snapshots" ∧ kind = "workspace-snapshot" then maxWorkspaceCiphertext else maxCiphertext

def identifier (value : String) : Bool := Service.isIdentifier value

def decode (value : String) (min max : Nat) : Option Bytes := do
  guard (value.utf8ByteSize ≤ (max * 4 + 2) / 3)
  let bytes ← Base64url.decode value
  guard (min ≤ bytes.length ∧ bytes.length ≤ max ∧ Base64url.encode bytes = value)
  return bytes

def frame (value : String) (min max : Nat) : Option Bytes := (decode value min max).filter fun bytes => bytes.head? = some 2

/-! ## Tables -/

structure HeadRow where
  accountId : String
  vaultId : String
  collectionId : String
  recordId : String
  kind : String
  revision : Int
  keyGeneration : Int
  formatVersion : Nat
  objectKey : Option String
  ciphertextSha256 : Option String
  keyEnvelope : Option String
  deleted : Bool
  deriving DecidableEq

/-- The primary key of a head. -/
abbrev Slot := String × String × String × String

def HeadRow.slot (self : HeadRow) : Slot := (self.accountId, self.vaultId, self.collectionId, self.recordId)

/-- A head is live with an object, its digest and an envelope, or deleted without them. -/
def HeadRow.Check (self : HeadRow) : Prop :=
  (1 ≤ self.collectionId.length ∧ self.collectionId.length ≤ 128) ∧ (1 ≤ self.recordId.length ∧ self.recordId.length ≤ 128) ∧
    (1 ≤ self.kind.length ∧ self.kind.length ≤ 128) ∧ (1 ≤ self.revision ∧ self.revision ≤ maxSafe) ∧
    (1 ≤ self.keyGeneration ∧ self.keyGeneration ≤ maxSafe) ∧ self.formatVersion = 2 ∧
    ((self.deleted = true ∧ self.objectKey = none ∧ self.ciphertextSha256 = none ∧ self.keyEnvelope = none) ∨
      (self.deleted = false ∧ self.objectKey.isSome = true ∧ self.ciphertextSha256.map String.length = some 43 ∧
        self.keyEnvelope.map String.length = some 82))

instance : DecidablePred HeadRow.Check := fun _ => inferInstanceAs (Decidable (_ ∧ _))

structure MutationRow where
  accountId : String
  operationId : String
  requestHash : String
  resultRevision : Int
  deleted : Bool
  createdAt : Nat
  deriving DecidableEq

def MutationRow.key (self : MutationRow) : String × String := (self.accountId, self.operationId)

def MutationRow.Check (self : MutationRow) : Prop :=
  self.operationId.length = 43 ∧ self.requestHash.length = 43 ∧ 1 ≤ self.resultRevision ∧ self.resultRevision ≤ maxSafe

instance : DecidablePred MutationRow.Check := fun _ => inferInstanceAs (Decidable (_ ∧ _))

inductive CandidateState where
  | pending
  | deleting
  deriving DecidableEq

/-- `vault_gc_candidate` -/
structure CandidateRow where
  objectKey : String
  eligibleAt : Nat
  state : CandidateState
  deriving DecidableEq

/-- An object of the bucket, with the time of its upload in milliseconds. -/
structure Object where
  key : String
  bytes : Bytes
  uploaded : Nat
  deriving DecidableEq

structure Db where
  around : Accounts
  roots : List OwnerKeys.HeadRow
  wraps : List OwnerKeys.WrapRow
  heads : List HeadRow
  mutations : List MutationRow
  candidates : List CandidateRow
  bucket : List Object
  /-- What the bucket takes for the time, in milliseconds. -/
  bucketClock : Nat

def Db.clock (self : Db) : Nat := self.around.unixepoch

/-! ## Transactions -/

/-- The values bound to the statements of a write. -/
structure Commit where
  accountId : String
  vaultId : String
  collectionId : String
  recordId : String
  kind : String
  revision : Int
  keyGeneration : Int
  objectKey : Option String
  ciphertextSha256 : Option String
  keyEnvelope : Option String
  deleted : Bool
  expected : Int
  secretHash : String
  credentialId : String
  ownerKeyRevision : Int
  origin : String
  observedAt : Nat
  operation : String
  hash : String

/-- A candidate for what a head no longer holds, unless there is one. -/
def retire (key : Option String) (eligibleAt : Nat) (t : List CandidateRow) : List CandidateRow :=
  match key with
  | some key => if ∃ c ∈ t, c.objectKey = key then t else t ++ [⟨key, eligibleAt, .pending⟩]
  | none => t

namespace Commit

def slot (self : Commit) : Slot := (self.accountId, self.vaultId, self.collectionId, self.recordId)

def row (self : Commit) : HeadRow :=
  { accountId := self.accountId, vaultId := self.vaultId, collectionId := self.collectionId, recordId := self.recordId
    kind := self.kind, revision := self.revision, keyGeneration := self.keyGeneration, formatVersion := 2
    objectKey := self.objectKey, ciphertextSha256 := self.ciphertextSha256, keyEnvelope := self.keyEnvelope
    deleted := self.deleted }

def receipt (self : Commit) (now : Nat) : MutationRow :=
  { accountId := self.accountId, operationId := self.operation, requestHash := self.hash, resultRevision := self.revision
    deleted := self.deleted, createdAt := now }

/-- The head that the write was made for. -/
def expects (self : Commit) (h : HeadRow) : Prop :=
  h.revision = self.expected ∧ h.kind = self.kind ∧ h.keyGeneration = self.keyGeneration ∧ (h.deleted = false ∨ self.deleted = false)

instance (self : Commit) : DecidablePred self.expects := fun _ => inferInstanceAs (Decidable (_ ∧ _))

/-- The root key that the write was made under. -/
def rooted (self : Commit) (d : Db) : Prop :=
  ∃ h ∈ d.roots, (∃ w ∈ d.wraps, w.key = (h.accountId, h.keyGeneration, self.credentialId)) ∧ h.accountId = self.accountId ∧
    h.vaultId = self.vaultId ∧ h.keyGeneration = self.keyGeneration ∧ (h.revision : Int) = self.ownerKeyRevision ∧
    h.origin = self.origin ∧ h.formatVersion = 2 ∧ h.suite = suite

instance (self : Commit) (d : Db) : Decidable (self.rooted d) := inferInstanceAs (Decidable (∃ h ∈ d.roots, _))

/-- The `WHERE` of the selection that is inserted. -/
def allowed (self : Commit) (d : Db) : Prop :=
  self.revision = (if self.expected = -1 then 1 else self.expected + 1) ∧ (self.deleted = false ∨ self.expected > 0) ∧
    (∀ key ∈ self.objectKey, ∃ c ∈ d.candidates, c.objectKey = key ∧ c.state = .pending) ∧
    (self.observedAt ≤ d.clock ∧ d.clock ≤ self.observedAt + 300) ∧
    (¬∃ m ∈ d.mutations, m.key = (self.accountId, self.operation)) ∧
    ((self.expected = -1 ∧ ¬∃ h ∈ d.heads, h.slot = self.slot) ∨
      (self.expected > 0 ∧ ∃ h ∈ d.heads, h.slot = self.slot ∧ self.expects h)) ∧
    d.around.authorised self.accountId self.credentialId self.secretHash d.clock ∧ self.rooted d ∧
    (d.mutations.filter fun m => m.accountId = self.accountId ∧ m.createdAt + 60 > d.clock).length < 20 ∧
    (self.expected > 0 ∨ (d.heads.filter fun h => h.accountId = self.accountId).length < 256)

instance (self : Commit) (d : Db) : Decidable (self.allowed d) := inferInstanceAs (Decidable (_ ∧ _))

/-- No other head holds the object. -/
def unshared (self : Commit) (d : Db) : Prop := ∀ h ∈ d.heads, h.slot ≠ self.slot → h.objectKey.isSome → h.objectKey ≠ self.objectKey

instance (self : Commit) (d : Db) : Decidable (self.unshared d) := inferInstanceAs (Decidable (∀ h ∈ d.heads, _))

/-- The candidates behind a head that takes the object of the write for its own. -/
def settle (self : Commit) (old : Option String) (d : Db) : List CandidateRow :=
  (retire (if old = self.objectKey then none else old) (d.clock + grace) d.candidates).filter fun c =>
    ¬(some c.objectKey = self.objectKey ∧ c.state = .pending)

/-- The statement on the head, and how many rows it changed. -/
def upsert (self : Commit) (d : Db) : Option (Db × Nat) :=
  if self.allowed d then do
    require (∀ c ∈ d.candidates, c.state = .deleting → some c.objectKey ≠ self.objectKey)
    match lookup HeadRow.slot self.slot d.heads with
    | none =>
      let heads ← insert HeadRow.slot HeadRow.Check self.row d.heads
      require (self.unshared d)
      return ({ d with heads, candidates := self.settle none d }, 1)
    | some h =>
      if self.expects h then do
        let row := { h with
          revision := self.revision, objectKey := self.objectKey, ciphertextSha256 := self.ciphertextSha256
          keyEnvelope := self.keyEnvelope, deleted := self.deleted }
        require row.Check
        require (self.unshared d)
        return ({ d with heads := replace HeadRow.slot row d.heads, candidates := self.settle h.objectKey d }, 1)
      else some (d, 0)
  else some (d, 0)

/-- The batch: the head, and a receipt where it was changed. -/
def run (self : Commit) (d : Db) : Option Db := do
  let (d', changes) ← self.upsert d
  if changes = 1 then do
    let mutations ← insert MutationRow.key MutationRow.Check (self.receipt d.clock) d'.mutations
    return { d' with mutations }
  else return d'

end Commit

/-- Some live head holds the object. -/
def Db.holds (self : Db) (key : String) : Prop := ∃ h ∈ self.heads, h.objectKey = some key ∧ h.deleted = false

instance (self : Db) (key : String) : Decidable (self.holds key) := inferInstanceAs (Decidable (∃ h ∈ self.heads, _))

/-- The keys that a collector takes at a time. -/
def due (now : Nat) (d : Db) : List String :=
  (((d.candidates.filter fun c => c.eligibleAt ≤ now ∧ ¬d.holds c.objectKey).mergeSort fun a b =>
    a.eligibleAt < b.eligibleAt || (a.eligibleAt == b.eligibleAt && a.objectKey ≤ b.objectKey)).take 256).map (·.objectKey)

/-- `INSERT OR IGNORE` of a candidate for what no live head holds. -/
def discover (d : Db) (t : List CandidateRow) (row : String × Nat) : List CandidateRow :=
  if d.holds row.1 ∨ ∃ c ∈ t, c.objectKey = row.1 then t else t ++ [⟨row.1, row.2, .pending⟩]

inductive Tx where
  /-- The candidate of an object that is to be uploaded. -/
  | register (key : String)
  /-- An object is put where there is none. -/
  | upload (key : String) (bytes : Bytes)
  | commit (c : Commit)
  | discover (rows : List (String × Nat))
  | mark (now : Nat)
  | delete (keys : List String)
  | remove (keys : List String)
  /-- Some of the receipts from before `cutoff`. -/
  | expire (cutoff : Nat) (chosen : MutationRow → Bool)
  /-- Some of the receipts that are old by the database's time. -/
  | lapse (chosen : MutationRow → Bool)

def Tx.run : Tx → Db → Option Db
  | register key, d => do
    let candidates ← insert CandidateRow.objectKey (fun _ => True) ⟨key, d.clock + grace, .pending⟩ d.candidates
    return { d with candidates }
  | upload key bytes, d => do
    let bucket ← insert Object.key (fun _ => True) ⟨key, bytes, d.bucketClock⟩ d.bucket
    return { d with bucket }
  | commit c, d => c.run d
  | discover rows, d => some { d with candidates := rows.foldl (Records.discover d) d.candidates }
  | mark now, d => some { d with candidates := update (fun c => c.objectKey ∈ due now d) (fun c => { c with state := .deleting }) d.candidates }
  | delete keys, d => some { d with bucket := d.bucket.filter fun o => o.key ∉ keys }
  | remove keys, d => some { d with candidates := d.candidates.filter fun c => ¬(c.objectKey ∈ keys ∧ c.state = .deleting) }
  | expire cutoff chosen, d => some { d with mutations := d.mutations.filter fun m => ¬(m.createdAt < cutoff ∧ chosen m = true) }
  | lapse chosen, d => some { d with mutations := d.mutations.filter fun m => ¬(m.createdAt + retention < d.clock ∧ chosen m = true) }

/-- The time goes on, and other routes change accounts and owner keys; nobody else writes the other tables. -/
def system : System Db Tx where
  run := Tx.run
  drift d d' := d'.heads = d.heads ∧ d'.mutations = d.mutations ∧ d'.candidates = d.candidates ∧ d'.bucket = d.bucket ∧
    d.clock ≤ d'.clock ∧ d.bucketClock ≤ d'.bucketClock

abbrev Route := Calls Failure Db Tx

/-! ## The authority of an owner -/

structure Root where
  vaultId : String
  origin : String
  keyGeneration : Int
  revision : Int
  formatVersion : Nat
  suite : String
  observedAt : Nat

def Root.same (self other : Root) : Bool :=
  self.vaultId == other.vaultId && self.origin == other.origin && self.keyGeneration == other.keyGeneration &&
    self.revision == other.revision && self.formatVersion == other.formatVersion && self.suite == other.suite

def Root.supported (self : Root) (origin : String) : Bool :=
  self.formatVersion == 2 && self.suite == Records.suite && self.origin == origin && origin.startsWith "https://" && identifier self.vaultId

def authority (d : Db) (owner : Owner) : Option Root :=
  if d.around.authorised owner.accountId owner.credentialId owner.secretHash d.clock then
    (d.roots.find? fun h => h.accountId = owner.accountId ∧ ∃ w ∈ d.wraps, w.key = (h.accountId, h.keyGeneration, owner.credentialId)).map
      fun h => ⟨h.vaultId, h.origin, h.keyGeneration, h.revision, h.formatVersion, h.suite, d.clock⟩
  else none

def stillAuthorized (d : Db) (owner : Owner) (root : Root) : Bool := (authority d owner).any fun current => current.same root

def mutation (d : Db) (account operation : String) : Option MutationRow :=
  lookup MutationRow.key (account, operation) (d.mutations.filter fun m => m.createdAt + retention ≥ d.clock)

/-! ## Bodies -/

structure DeleteBody where
  formatVersion : Nat
  vaultId : String
  keyGeneration : Int
  ownerKeyRevision : Int
  kind : String
  revision : Int

structure PutBody extends DeleteBody where
  ciphertext : String
  keyEnvelope : String

def DeleteBody.members (f : String → Option Json.Value) : Option DeleteBody := do
  let formatVersion ← (← f "format_version").asNum (2 ^ 8)
  let vaultId ← (← f "vault_id").asStr
  let keyGeneration ← (← f "key_generation").asNum (2 ^ 63)
  let ownerKeyRevision ← (← f "owner_key_revision").asNum (2 ^ 63)
  let kind ← (← f "kind").asStr
  let revision ← (← f "revision").asNum (2 ^ 63)
  return { formatVersion, vaultId, keyGeneration, ownerKeyRevision, kind, revision }

def DeleteBody.read (v : Json.Value) : Option DeleteBody := do
  let f ← Json.fields ["format_version", "vault_id", "key_generation", "owner_key_revision", "kind", "revision"] v
  members f

def PutBody.read (v : Json.Value) : Option PutBody := do
  let f ← Json.fields ["format_version", "vault_id", "key_generation", "owner_key_revision", "kind", "revision", "ciphertext", "key_envelope"] v
  let value ← DeleteBody.members f
  let ciphertext ← (← f "ciphertext").asStr
  let keyEnvelope ← (← f "key_envelope").asStr
  return { value with ciphertext, keyEnvelope }

/-- What a body asks for: its fields, and the object and the envelope that a PUT brings. -/
structure Wanted where
  value : DeleteBody
  content : Option (Bytes × String)

/-- The value of an optional one, or an answer. -/
def answer {α : Type} (status : Nat) (code : String) : Option α → Except Failure α
  | some a => .ok a
  | none => .error (.response status code)

def nextRevision (expected : Int) : Int := if expected = -1 then 1 else expected + 1

def inRange (n : Int) : Bool := 1 ≤ n && n ≤ maxSafe

/-- What a body brings; the texts of a PUT are canonical frames. -/
def brought (collection : String) (deleted : Bool) (body : String) : Except Failure Wanted :=
  if deleted then do
    let value ← answer 400 "invalid_body" ((Json.parse body).bind DeleteBody.read)
    return ⟨value, none⟩
  else do
    let value ← answer 400 "invalid_body" ((Json.parse body).bind PutBody.read)
    let ciphertext ← answer 400 "invalid_body" (frame value.ciphertext 29 (ciphertextLimit collection value.kind))
    let _ ← answer 400 "invalid_body" (frame value.keyEnvelope 61 61)
    return ⟨value.toDeleteBody, some (ciphertext, value.keyEnvelope)⟩

/-- What `write` asks of a body. -/
def wanted (collection : String) (deleted : Bool) (expected : Int) (body : String) : Except Failure Wanted := do
  let want ← brought collection deleted body
  Checks.denyIf (want.value.formatVersion ≠ 2 ∨ identifier want.value.vaultId = false ∨ identifier want.value.kind = false ∨
    inRange want.value.keyGeneration = false ∨ inRange want.value.ownerKeyRevision = false ∨
    want.value.revision ≠ nextRevision expected) (.response 400 "invalid_record")
  return want

def bodyLimit (collection : String) (deleted : Bool) : Nat :=
  if deleted then 1024 else if collection = "workspace-snapshots" then maxWorkspaceBody else maxBody

/-! ## Writes -/

/-- The revision of a record and whether it is deleted. -/
abbrev Outcome := Int × Bool

/-- A request that got as far as the owner's root key. -/
structure Admitted where
  owner : Owner
  expected : Int
  operation : String
  body : String
  want : Wanted

def quoted (n : Int) : String := String.ofList (Request.quote :: (toString n).toList ++ [Request.quote])

/-- A verdict without a call. -/
def decided {α : Type} : Except Failure α → Route α
  | .ok a => pure a
  | .error e => throw e

/-- The part of `write` before the owner's root key. -/
def admission (request : Request) (collection record : String) (deleted : Bool) : Route Admitted := do
  fails (request.bucket = false) (.response 404 "not_found")
  fails (identifier collection = false ∨ identifier record = false) (.response 400 "invalid_record")
  fails (request.sameOrigin = false) (.response 403 "origin_required")
  let expected ← demand request.expectedRevision (.response 428 "precondition_required")
  fails ((deleted = true ∧ expected = -1) ∨ (expected > 0 ∧ request.ifMatch ≠ some (quoted expected))) (.response 428 "precondition_required")
  let operation ← demand (request.operationId.filter fun id => (decode id 32 32).isSome) (.response 400 "operation_id_required")
  let owner ← @owner Db Tx Base64.url Db.around request 0
  let owner ← demand owner (.response 401 "authentication_required")
  fails (request.contentType ≠ some "application/json") (.response 415 "json_required")
  let body ← demand (request.body.filter fun body => body.utf8ByteSize ≤ bodyLimit collection deleted) (.response 413 "body_too_large_or_invalid")
  let want ← decided (wanted collection deleted expected body)
  return { owner, expected, operation, body, want }

def method (deleted : Bool) : String := if deleted then "V2-DELETE" else "V2-PUT"

/-- `expected as u64`, in the bytes that are hashed. -/
def word (n : Int) : Nat := (n % 2 ^ 64).toNat

namespace Admitted

def hash (self : Admitted) (collection record : String) (deleted : Bool) : String :=
  @requestHash Base64.url (method deleted) (collection ++ "/" ++ record) (word self.expected) self.body

def slot (self : Admitted) (collection record : String) (root : Root) : Slot :=
  (self.owner.accountId, root.vaultId, collection, record)

/-- The commit of a request under a root key, with the key of its object. -/
def commit (self : Admitted) (collection record : String) (deleted : Bool) (root : Root) (key : String) : Commit :=
  { accountId := self.owner.accountId, vaultId := root.vaultId, collectionId := collection, recordId := record
    kind := self.want.value.kind, revision := nextRevision self.expected, keyGeneration := root.keyGeneration
    objectKey := self.want.content.map fun _ => key
    ciphertextSha256 := self.want.content.map fun c => Base64url.encode (Sha.sha256 c.1)
    keyEnvelope := self.want.content.map fun c => c.2
    deleted, expected := self.expected, secretHash := self.owner.secretHash, credentialId := self.owner.credentialId
    ownerKeyRevision := root.revision, origin := root.origin, observedAt := root.observedAt
    operation := self.operation, hash := self.hash collection record deleted }

end Admitted

def outcome (previous : MutationRow) (hash : String) : Route Outcome := do
  fails (previous.requestHash ≠ hash) (.response 409 "operation_id_reused")
  return (previous.resultRevision, previous.deleted)

/-- The answer of an earlier request of the operation, to an owner whose root key is still the same. -/
def reconcile (a : Admitted) (root : Root) (hash : String) : Route (Option Outcome) := do
  let d ← read
  match mutation d a.owner.accountId a.operation with
  | none => return none
  | some previous =>
    let d ← read
    fails (stillAuthorized d a.owner root = false) (.response 409 "owner_key_changed")
    let o ← outcome previous hash
    return some o

/-- A concurrent request of the same operation may have committed meanwhile. -/
def reconciled (a : Admitted) (root : Root) (hash : String) (refusal : Failure) : Route Outcome := do
  let o ← reconcile a root hash
  demand o refusal

/-- Why the head is not the one that is expected. -/
def conflict (a : Admitted) (deleted : Bool) (root : Root) (current : Option HeadRow) : Option Failure :=
  if deleted = true ∧ current.any (·.deleted) then some (.response 409 "record_deleted")
  else if (a.expected = -1 ∧ current.isSome) ∨ (a.expected > 0 ∧ ¬∃ h ∈ current, h.revision = a.expected ∧ h.kind = a.want.value.kind ∧
      h.keyGeneration = root.keyGeneration) then some (.response 409 "revision_conflict")
  else none

/-- Why there is no room for the write. -/
def exceeded (a : Admitted) (d : Db) : Option Failure :=
  if (d.mutations.filter fun m => m.accountId = a.owner.accountId ∧ m.createdAt + 60 > d.clock).length ≥ 20 then
    some (.response 429 "write_rate_exceeded")
  else if a.expected = -1 ∧ (d.heads.filter fun h => h.accountId = a.owner.accountId).length ≥ 256 then
    some (.response 409 "record_limit_exceeded")
  else none

/-- The checks behind the receipt; an answer, or that the write may go on. -/
def checked (collection record : String) (deleted : Bool) (a : Admitted) (root : Root) (hash : String) : Route (Option Outcome) := do
  fails (root.keyGeneration ≠ a.want.value.keyGeneration ∨ root.revision ≠ a.want.value.ownerKeyRevision) (.response 409 "owner_key_changed")
  let d ← read
  match conflict a deleted root (lookup HeadRow.slot (a.slot collection record root) d.heads) with
  | some refusal =>
    let o ← reconciled a root hash refusal
    return some o
  | none =>
    let d ← read
    match exceeded a d with
    | some refusal =>
      let o ← reconciled a root hash refusal
      return some o
    | none => return none

/-- The part of `write` before the upload: an answer, or what is to be committed. -/
def prepare (request : Request) (collection record : String) (deleted : Bool) : Route (Admitted × Root × Option Outcome) := do
  let a ← admission request collection record deleted
  let d ← read
  let root ← demand (authority d a.owner) (.response 409 "owner_key_unavailable")
  fails (root.supported request.url = false ∨ root.vaultId ≠ a.want.value.vaultId) (.response 409 "owner_key_changed")
  match ← reconcile a root (a.hash collection record deleted) with
  | some o => return (a, root, some o)
  | none =>
    let o ← checked collection record deleted a root (a.hash collection record deleted)
    return (a, root, o)

/-- The object of a write, behind its candidate. -/
def store (content : Option (Bytes × String)) (key : String) : Route Unit :=
  match content with
  | none => pure ()
  | some (ciphertext, _) => do
    commit (.register key)
    match ← attempt (commit (.upload key ciphertext)) with
    | .ok () => return ()
    | .error _ => throw (.response 503 "storage_unavailable")

/-- The commit of a write, and its answer. -/
def finish (a : Admitted) (root : Root) (c : Commit) : Route Outcome := do
  let committed ← attempt (commit (.commit c))
  let d ← read
  let previous := mutation d a.owner.accountId a.operation
  let d ← read
  fails (stillAuthorized d a.owner root = false) (.response 409 "owner_key_changed")
  match previous with
  | some previous => outcome previous c.hash
  | none =>
    match committed with
    | .error _ => throw (.response 503 "storage_unavailable")
    | .ok () => throw (.response 409 "revision_conflict")

/-- `write`, with the random key of a new object. -/
def write (request : Request) (collection record : String) (deleted : Bool) (key : String) : Route Outcome := do
  let (a, root, answered) ← prepare request collection record deleted
  match answered with
  | some o => return o
  | none =>
    store a.want.content key
    finish a root (a.commit collection record deleted root key)

def put (request : Request) (collection record key : String) : Route Outcome := write request collection record false key

def delete (request : Request) (collection record : String) : Route Outcome := write request collection record true ""

/-! ## Reads -/

/-- What `get` makes its answer of: a live head with its object, or a head that says that the record is deleted. -/
inductive Selected where
  | live (root : Root) (head : HeadRow) (bytes : Bytes)
  | deleted (head : HeadRow)

def Selected.head : Selected → HeadRow
  | live _ head _ => head
  | deleted head => head

def get (request : Request) (collection record : String) : Route Selected := do
  fails (request.bucket = false) (.response 404 "not_found")
  fails (identifier collection = false ∨ identifier record = false) (.response 400 "invalid_record")
  let owner ← @owner Db Tx Base64.url Db.around request 0
  let owner ← demand owner (.response 401 "authentication_required")
  let d ← read
  let root ← demand (authority d owner) (.response 409 "owner_key_unavailable")
  fails (root.supported request.url = false) (.response 409 "owner_key_changed")
  let slot := (owner.accountId, root.vaultId, collection, record)
  let d ← read
  match lookup HeadRow.slot slot d.heads with
  | none =>
    let d ← read
    fails (stillAuthorized d owner root = false) (.response 409 "owner_key_changed")
    throw (.response 404 "not_found")
  | some selected =>
    fails (selected.formatVersion ≠ 2 ∨ selected.keyGeneration ≠ root.keyGeneration) (.response 409 "owner_key_changed")
    if selected.deleted then do
      let d ← read
      fails (stillAuthorized d owner root = false) (.response 409 "owner_key_changed")
      return .deleted selected
    else do
      let key ← demand selected.objectKey (.response 503 "storage_unavailable")
      let digest ← demand selected.ciphertextSha256 (.response 503 "storage_unavailable")
      let envelope ← demand selected.keyEnvelope (.response 503 "storage_unavailable")
      fails ((frame envelope 61 61).isNone) (.response 503 "storage_unavailable")
      let d ← read
      let object ← demand (lookup Object.key key d.bucket) (.response 503 "storage_unavailable")
      fails (object.bytes.length < 29 ∨ object.bytes.length > ciphertextLimit collection selected.kind ∨ object.bytes.head? ≠ some 2 ∨
        Base64url.encode (Sha.sha256 object.bytes) ≠ digest) (.response 503 "storage_unavailable")
      -- The head may have moved while the object was read.
      let d ← read
      fails (lookup HeadRow.slot slot d.heads ≠ some selected) (.response 409 "record_changed")
      let d ← read
      fails (stillAuthorized d owner root = false) (.response 409 "record_changed")
      return .live root selected object.bytes

/-! ## The collector -/

/-- The batches of one invocation; each takes what is due, deletes the objects, then the candidates. -/
def batches (now : Nat) : List Bool → Route Unit
  | [] => pure ()
  | false :: _ => pure ()
  | true :: rest => do
    let before ← perform (.mark now)
    if due now before = [] then pure ()
    else do
      commit (.delete (due now before))
      commit (.remove (due now before))
      batches now rest

/-- The candidates of what the bucket lists; nothing is sent where nothing is old. -/
def discovered (rows : List (String × Nat)) : Route Unit := if rows = [] then pure () else commit (.discover rows)

/-- `run` of the collector at a scheduled time in milliseconds; `page` is what the bucket lists, `timely` whether a further
batch has time, and `chosen` the receipts that a limited deletion takes. -/
def runGc (scheduled : Nat) (page : Object → Bool) (timely : List Bool) (chosen : MutationRow → Bool) : Route Unit := do
  let d ← read
  discovered (((d.bucket.filter page).filter fun o => o.uploaded < scheduled - grace * 1000).map fun o => (o.key, o.uploaded / 1000 + grace))
  batches (scheduled / 1000) (timely.take 4)
  commit (.expire (scheduled / 1000 - retention) chosen)

def collect (chosen : MutationRow → Bool) : Route Unit := commit (.lapse chosen)

/-- What a client asks for, and what is done once a minute. -/
inductive Call where
  | put (request : Request) (collection record key : String)
  | delete (request : Request) (collection record : String)
  | get (request : Request) (collection record : String)
  | runGc (scheduled : Nat) (page : Object → Bool) (timely : List Bool) (chosen : MutationRow → Bool)
  | collect (chosen : MutationRow → Bool)

inductive Reply where
  | written (o : Outcome)
  | read (s : Selected)
  | collected

def Call.program : Call → Route Reply
  | put request collection record key => do
    let o ← Records.put request collection record key
    return .written o
  | delete request collection record => do
    let o ← Records.delete request collection record
    return .written o
  | get request collection record => do
    let s ← Records.get request collection record
    return .read s
  | runGc scheduled page timely chosen => do
    Records.runGc scheduled page timely chosen
    return .collected
  | collect chosen => do
    Records.collect chosen
    return .collected

end Mikaki.Vault.Records
