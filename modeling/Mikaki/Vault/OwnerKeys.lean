import Mikaki.Lib.Rows
import Mikaki.Vault.Http

/-!
# Wrappers of the owner key

The root key of a vault is stored wrapped, once for each credential that may
open it. A wrapper is added or removed under a compare-and-swap of the head's
revision, with a receipt that answers retries.
-/

namespace Mikaki.Vault.OwnerKeys

open Concurrent Concurrent.Prog Rows Transactions

def suiteName : String := "PRF-HKDF-SHA256-AES256GCM-v2"

/-! ## Bodies -/

structure Envelope where
  formatVersion : Nat
  kind : String
  credentialId : String
  prfInput : String
  salt : String
  nonce : String
  wrappedKey : String

structure Create where
  formatVersion : Nat
  suite : String
  vaultId : String
  keyGeneration : Int
  ownerEnvelope : Envelope

structure RemoveWrap where
  formatVersion : Nat
  suite : String
  vaultId : String
  keyGeneration : Int
  credentialId : String

/-- The JSON of the bodies and of a stored envelope. -/
class Bodies extends Base64 where
  create : String → Option Create
  removeWrap : String → Option RemoveWrap
  envelope : Envelope → String

section
variable [Base64]

def canonical (value : String) (min max : Nat) : Bool :=
  if value.utf8ByteSize > (max * 4 + 2) / 3 then false
  else
    match decode64 value with
    | none => false
    | some bytes => min ≤ bytes.length && bytes.length ≤ max && encode64 bytes == value

def Envelope.valid (self : Envelope) (credential : String) : Bool :=
  self.formatVersion == 2 && self.kind == "owner-key" && self.credentialId == credential &&
    canonical self.credentialId 1 512 && canonical self.prfInput 32 32 && canonical self.salt 32 32 &&
    canonical self.nonce 12 12 && canonical self.wrappedKey 48 48

end

/-! ## Tables -/

structure HeadRow where
  accountId : String
  vaultId : String
  origin : String
  keyGeneration : Int
  revision : Nat
  formatVersion : Nat
  suite : String
  operationId : String
  requestHash : String
  deriving DecidableEq

def HeadRow.next (self : HeadRow) : HeadRow := { self with revision := self.revision + 1 }

structure WrapRow where
  accountId : String
  keyGeneration : Int
  credentialId : String
  envelope : String
  deriving DecidableEq

def WrapRow.key (self : WrapRow) : String × Int × String := (self.accountId, self.keyGeneration, self.credentialId)

inductive Action where
  | add
  | remove
  deriving DecidableEq

structure ReceiptRow where
  accountId : String
  operationId : String
  requestHash : String
  action : Action
  sourceCredentialId : String
  credentialId : String
  vaultId : String
  keyGeneration : Int
  previousRevision : Nat
  revision : Nat
  createdAt : Nat
  deriving DecidableEq

def ReceiptRow.key (self : ReceiptRow) : String × String := (self.accountId, self.operationId)

def ReceiptRow.Check (self : ReceiptRow) : Prop :=
  self.operationId.length = 43 ∧ self.requestHash.length = 43 ∧
    (1 ≤ self.sourceCredentialId.length ∧ self.sourceCredentialId.length ≤ 683) ∧
    (1 ≤ self.credentialId.length ∧ self.credentialId.length ≤ 683) ∧
    (1 ≤ self.vaultId.length ∧ self.vaultId.length ≤ 128) ∧
    (1 ≤ self.keyGeneration ∧ self.keyGeneration ≤ 9007199254740991) ∧
    (1 ≤ self.previousRevision ∧ self.previousRevision ≤ 9007199254740990) ∧
    self.revision = self.previousRevision + 1 ∧ 0 < self.createdAt

instance : DecidablePred ReceiptRow.Check := fun _ => inferInstanceAs (Decidable (_ ∧ _))

structure Db where
  around : Accounts
  /-- The keys of `atomic_guard` that other routes have left. -/
  guards : List String
  heads : List HeadRow
  wraps : List WrapRow
  receipts : List ReceiptRow

/-- The wraps of one generation of an account's key. -/
def Db.wrapsOf (self : Db) (account : String) (generation : Int) : List WrapRow :=
  self.wraps.filter fun w => w.accountId = account ∧ w.keyGeneration = generation

/-! ## Transactions -/

/-- The values bound to the batch of `mutate_wrapper`. -/
structure Mutation where
  accountId : String
  expected : Nat
  vaultId : String
  keyGeneration : Int
  origin : String
  secretHash : String
  credentialId : String
  now : Nat
  target : String
  /-- The wrapper to add; none where one is removed. -/
  envelope : Option String
  operation : String
  hash : String

namespace Mutation

def action (self : Mutation) : Action := if self.envelope.isSome then .add else .remove

def targetKey (self : Mutation) : String × Int × String := (self.accountId, self.keyGeneration, self.target)

def sourceKey (self : Mutation) : String × Int × String := (self.accountId, self.keyGeneration, self.credentialId)

def receipt (self : Mutation) : ReceiptRow :=
  { accountId := self.accountId, operationId := self.operation, requestHash := self.hash, action := self.action
    sourceCredentialId := self.credentialId, credentialId := self.target, vaultId := self.vaultId
    keyGeneration := self.keyGeneration, previousRevision := self.expected, revision := self.expected + 1
    createdAt := self.now }

/-- The `WHERE` of the update of the head. -/
def selects (self : Mutation) (d : Db) (h : HeadRow) : Prop :=
  h.accountId = self.accountId ∧ h.revision = self.expected ∧ h.revision < 9007199254740991 ∧ h.vaultId = self.vaultId ∧
    h.keyGeneration = self.keyGeneration ∧ h.origin = self.origin ∧ h.formatVersion = 2 ∧ h.suite = suiteName ∧
    d.around.authorised self.accountId self.credentialId self.secretHash self.now ∧
    (∃ w ∈ d.wraps, w.key = self.sourceKey) ∧
    (∃ c ∈ d.around.credentials, c.accountId = self.accountId ∧ c.credentialId = self.target ∧
      (self.action = .remove ∨ c.active = true)) ∧
    self.credentialId ≠ self.target ∧
    (self.action = .remove ∨ (d.wrapsOf self.accountId self.keyGeneration).length < 10) ∧
    (d.receipts.filter fun r => r.accountId = self.accountId ∧ r.createdAt + 60 > d.around.unixepoch).length < 20 ∧
    ((self.action = .add ∧ ¬∃ w ∈ d.wraps, w.key = self.targetKey) ∨
      (self.action = .remove ∧ ∃ w ∈ d.wraps, w.key = self.targetKey)) ∧
    ¬∃ r ∈ d.receipts, r.key = (self.accountId, self.operation)

instance (self : Mutation) (d : Db) : DecidablePred (self.selects d) := fun _ => inferInstanceAs (Decidable (_ ∧ _))

/-- The insertion or the deletion of the wrapper, and how many rows it changed. -/
def change (self : Mutation) (d : Db) : Option (List WrapRow × Nat) :=
  match self.envelope with
  | some envelope => do
    let w : WrapRow := { accountId := self.accountId, keyGeneration := self.keyGeneration, credentialId := self.target, envelope }
    let wraps ← insert WrapRow.key (fun w => 1 ≤ w.envelope.length ∧ w.envelope.length ≤ 2048) w d.wraps
    return (wraps, 1)
  | none => some (d.wraps.filter (fun w => w.key ≠ self.targetKey), d.wraps.countP fun w => w.key = self.targetKey)

/-- The batch: the head, the guard on it, the wrapper, the guard on that, the receipt. -/
def run (self : Mutation) (d : Db) : Option Db := do
  let heads ← updateOne (self.selects d) HeadRow.next (fun _ _ => True) d.heads
  require (self.operation ∉ d.guards)
  let (wraps, changes) ← self.change d
  require (changes = 1)
  let receipts ← insert ReceiptRow.key ReceiptRow.Check self.receipt d.receipts
  return { d with heads, wraps, receipts }

end Mutation

/-- The values bound to the batch of `create`. -/
structure Creation where
  accountId : String
  vaultId : String
  origin : String
  operation : String
  hash : String
  now : Nat
  secretHash : String
  credentialId : String
  envelope : String

/-- The head of an account is created once, with its first wrapper. -/
def Creation.run (self : Creation) (d : Db) : Option Db :=
  if (∀ h ∈ d.heads, h.accountId ≠ self.accountId) ∧
      d.around.authorised self.accountId self.credentialId self.secretHash self.now then do
    let h : HeadRow :=
      { accountId := self.accountId, vaultId := self.vaultId, origin := self.origin, keyGeneration := 1, revision := 1
        formatVersion := 2, suite := suiteName, operationId := self.operation, requestHash := self.hash }
    let w : WrapRow :=
      { accountId := self.accountId, keyGeneration := 1, credentialId := self.credentialId, envelope := self.envelope }
    let heads ← insert HeadRow.accountId (fun h => (1 ≤ h.vaultId.length ∧ h.vaultId.length ≤ 128) ∧
      h.operationId.length = 43 ∧ h.requestHash.length = 43) h d.heads
    let wraps ← insert WrapRow.key (fun w => 1 ≤ w.envelope.length ∧ w.envelope.length ≤ 2048) w d.wraps
    return { d with heads, wraps }
  else some d

inductive Tx where
  | mutate (m : Mutation)
  | create (p : Creation)

def Tx.run : Tx → Db → Option Db
  | mutate m => m.run
  | create p => p.run

/-- No other route writes the three tables. -/
def system : System Db Tx where
  run := Tx.run
  drift d d' := d'.heads = d.heads ∧ d'.wraps = d.wraps ∧ d'.receipts = d.receipts

/-! ## The handler -/

abbrev Route := Calls Failure Db Tx

/-- `head`: the head of the account, and the envelope of the credential. -/
def head (d : Db) (account credential : String) : Option (HeadRow × Option String) :=
  (lookup HeadRow.accountId account d.heads).map fun h =>
    (h, (lookup WrapRow.key (account, h.keyGeneration, credential) d.wraps).map (·.envelope))

/-- `receipt`, shown to a live session of a credential that is wrapped. -/
def receipt (d : Db) (actor : Owner) (operation : String) (now : Nat) : Option ReceiptRow :=
  (lookup ReceiptRow.key (actor.accountId, operation) d.receipts).filter fun o =>
    d.around.authorised o.accountId actor.credentialId actor.secretHash now ∧
      ∃ h ∈ d.heads, h.accountId = o.accountId ∧ h.vaultId = o.vaultId ∧ h.keyGeneration = o.keyGeneration ∧
        ∃ w ∈ d.wraps, w.key = (h.accountId, h.keyGeneration, actor.credentialId)

def receiptResponse (value : ReceiptRow) (hash : String) : Route ReceiptRow := do
  fails (value.requestHash ≠ hash) (.response 409 "operation_id_reused")
  return value

/-- What a body asks for: the vault, the generation, the credential, and the envelope to add. -/
structure Wanted where
  vaultId : String
  keyGeneration : Int
  target : String
  envelope : Option String

def wanted [Bodies] (add : Bool) (body : String) : Route Wanted := do
  if add then
    let value ← demand (Bodies.create body) (.response 400 "invalid_body")
    fails (value.formatVersion ≠ 2 ∨ value.suite ≠ suiteName ∨
      value.ownerEnvelope.valid value.ownerEnvelope.credentialId = false) (.response 400 "invalid_owner_key")
    return { vaultId := value.vaultId, keyGeneration := value.keyGeneration, target := value.ownerEnvelope.credentialId
             envelope := some (Bodies.envelope value.ownerEnvelope) }
  else
    let value ← demand (Bodies.removeWrap body) (.response 400 "invalid_body")
    fails (value.formatVersion ≠ 2 ∨ value.suite ≠ suiteName ∨ canonical value.credentialId 1 512 = false)
      (.response 400 "invalid_owner_key")
    return { vaultId := value.vaultId, keyGeneration := value.keyGeneration, target := value.credentialId, envelope := none }

def mutationMethod (add : Bool) : String := if add then "ADD-OWNER-WRAP" else "REMOVE-OWNER-WRAP"

def mutationScope (credential : String) : String := "owner-key-wrappers:" ++ credential

/-- Why a batch that left no receipt was refused. -/
def refusal [Bodies] (request : Request) (m : Mutation) : Route ReceiptRow := do
  let again ← owner Db.around request 4
  fails (again = none) (.response 401 "authentication_required")
  let d ← read
  fails (¬∃ h, head d m.accountId m.credentialId = some h ∧ h.1.revision = m.expected ∧ h.2.isSome ∧
    h.1.vaultId = m.vaultId ∧ h.1.keyGeneration = m.keyGeneration ∧ h.1.origin = m.origin ∧ h.1.formatVersion = 2 ∧
    h.1.suite = suiteName) (.response 409 "owner_key_changed")
  let d ← read
  fails ((d.receipts.filter fun r => r.accountId = m.accountId ∧ r.createdAt + 60 > d.around.unixepoch).length ≥ 20)
    (.response 429 "write_rate_exceeded")
  let d ← read
  throw (.response (if (∃ c ∈ d.around.credentials, c.accountId = m.accountId ∧ c.credentialId = m.target ∧
        (m.action = .remove ∨ c.active = true)) ∧
      ((m.action = .add ∧ (¬∃ w ∈ d.wraps, w.key = m.targetKey) ∧ (d.wrapsOf m.accountId m.keyGeneration).length < 10) ∨
        (m.action = .remove ∧ ∃ w ∈ d.wraps, w.key = m.targetKey)) then 503 else 409) "wrapper_change_unconfirmed")

/-- A request that got as far as the lookup of its receipt. -/
structure Admitted where
  actor : Owner
  expected : Nat
  operation : String
  body : String
  want : Wanted
  revision : Nat

/-- The part of `mutate_wrapper` before the lookup of the receipt. -/
def admission [Bodies] (request : Request) (add : Bool) : Route Admitted := do
  fails (request.bucket = false) (.response 404 "not_found")
  fails (request.sameOrigin = false) (.response 403 "origin_required")
  let expected ← demand (request.expectedRevision.filter (0 < ·)) (.response 428 "revision_required")
  let operation ← demand request.operationId (.response 400 "operation_id_required")
  let actor ← owner Db.around request 0
  let actor ← demand actor (.response 401 "authentication_required")
  fails (request.contentType ≠ some "application/json") (.response 415 "json_required")
  let body ← demand request.body (.response 413 "body_too_large_or_invalid")
  let want ← wanted add body
  let d ← read
  let current ← demand (head d actor.accountId actor.credentialId) (.response 404 "owner_key_missing")
  fails (current.2 = none) (.response 409 "credential_not_wrapped")
  fails (current.1.formatVersion ≠ 2 ∨ current.1.suite ≠ suiteName ∨ current.1.origin ≠ request.url ∨
    current.1.vaultId ≠ want.vaultId ∨ current.1.keyGeneration ≠ want.keyGeneration)
    (.response 409 "owner_key_context_mismatch")
  return { actor, expected := expected.toNat, operation, body, want, revision := current.1.revision }

namespace Admitted

def preimage (self : Admitted) (add : Bool) : List UInt8 :=
  requestPreimage (mutationMethod add) (mutationScope self.actor.credentialId) self.expected self.body

def hash [Base64] (self : Admitted) (add : Bool) : String :=
  requestHash (mutationMethod add) (mutationScope self.actor.credentialId) self.expected self.body

/-- The batch of an admitted request. -/
def mutation [Base64] (self : Admitted) (request : Request) (add : Bool) (now : Nat) : Mutation :=
  { accountId := self.actor.accountId, expected := self.expected, vaultId := self.want.vaultId
    keyGeneration := self.want.keyGeneration, origin := request.url, secretHash := self.actor.secretHash
    credentialId := self.actor.credentialId, now, target := self.want.target, envelope := self.want.envelope
    operation := self.operation, hash := self.hash add }

end Admitted

def mutateWrapper [Bodies] (request : Request) (add : Bool) : Route ReceiptRow := do
  let a ← admission request add
  let now ← request.now 1
  let d ← read
  match receipt d a.actor a.operation now with
  | some previous => receiptResponse previous (a.hash add)
  | none =>
    fails (a.revision ≠ a.expected) (.response 409 "owner_key_changed")
    fails (a.want.target = a.actor.credentialId) (.response 409 "source_wrapper_required")
    let now ← request.now 2
    let m := a.mutation request add now
    let result ← attempt (commit (.mutate m))
    let now ← request.now 3
    let d ← read
    match receipt d a.actor a.operation now with
    | some previous => receiptResponse previous (a.hash add)
    | none =>
      match result with
      | .error _ => refusal request m
      | .ok () => throw (.response 503 "storage_unavailable")

def addWrapper [Bodies] (request : Request) : Route ReceiptRow := mutateWrapper request true

def removeWrapper [Bodies] (request : Request) : Route ReceiptRow := mutateWrapper request false

/-- What a client asks for. Of the route that makes the head, this is the batch. -/
inductive Call where
  | wrapper (request : Request) (add : Bool)
  | create (p : Creation)

def Call.program [Bodies] : Call → Route (Option ReceiptRow)
  | wrapper request true => do
    let r ← addWrapper request
    return some r
  | wrapper request false => do
    let r ← removeWrapper request
    return some r
  | create p => do
    commit (.create p)
    return none

end Mikaki.Vault.OwnerKeys
