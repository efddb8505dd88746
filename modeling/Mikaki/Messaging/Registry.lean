import Mikaki.Lib.Json
import Mikaki.Lib.Rows
import Mikaki.Mls.Trust
import Mikaki.Vault.Http

/-!
# The registry of messaging devices

A device has a head, which names its current generation, and a row for every
generation of its keys. An enrollment is a challenge that is answered by a
proof; completing it retires the generation before, publishes the new one and
consumes the challenge in one batch. Each generation keeps the head of its
journal. The statements of a batch read one clock.
-/

namespace Mikaki.Messaging

open Concurrent Concurrent.Prog Rows Transactions
open Mikaki.Vault (Failure demand Accounts)

def maxSafe : Nat := 9007199254740991

structure Identity where
  issuer : String
  accountId : String
  deviceId : String
  generation : Nat

def Identity.toJson (self : Identity) : Json.Value :=
  .obj [("issuer", .str self.issuer), ("account_id", .str self.accountId), ("device_id", .str self.deviceId),
    ("generation", .num self.generation)]

/-- The digest, the proofs and the bindings of the device profile. -/
class Profile extends Vault.Base64 where
  digest : String → String
  /-- The window of a proof for the identity, the key and the nonce at a time. -/
  verifyProof : String → Identity → String → String → Nat → Option (Nat × Nat)
  /-- A binding for the identity, the key, the revision and the status at a time. -/
  sign : Identity → String → Nat → String → Nat → Option String

section
variable [Profile]

def decodes (value : String) (size : Nat) : Bool :=
  value.utf8ByteSize == (size * 4 + 2) / 3 &&
    match Vault.decode64 value with
    | none => false
    | some bytes => bytes.length == size && Vault.encode64 bytes == value

def Identity.fingerprint (self : Identity) (key : String) : String :=
  Profile.digest (Json.Value.render (.arr [.str "mikaki-device-fingerprint-v1", self.toJson, .str "Ed25519", .str key]))

def Identity.scope (self : Identity) (key storage custody : String) : String :=
  Profile.digest (Json.Value.render (.arr [.str "mikaki-mls-device-state-v1", .str self.issuer, .str self.issuer,
    .str self.accountId, .str self.deviceId, .num self.generation, .str storage, .str custody,
    .str (self.fingerprint key)]))

end

/-! ## Tables -/

/-- `messaging_account`. -/
structure AccountRow where
  ownerId : String
  accountId : String
  deriving DecidableEq

/-- `messaging_device_head`. -/
structure HeadRow where
  accountId : String
  deviceId : String
  generation : Nat
  revision : Nat
  deriving DecidableEq

def HeadRow.key (self : HeadRow) : String × String := (self.accountId, self.deviceId)

inductive Status where
  | active
  | revoked
  deriving DecidableEq

def Status.text : Status → String
  | active => "active"
  | revoked => "revoked"

/-- `messaging_generation`. -/
structure GenerationRow where
  accountId : String
  deviceId : String
  generation : Nat
  revision : Nat
  publicKey : String
  status : Status
  storageId : String
  keyId : String
  fingerprint : String
  scopeHash : String
  enrollmentId : String
  headRevision : Nat
  headHash : Option String
  deriving DecidableEq

namespace GenerationRow

def device (self : GenerationRow) : String × String := (self.accountId, self.deviceId)

def key (self : GenerationRow) : String × String × Nat := (self.accountId, self.deviceId, self.generation)

def publicKeyOf (self : GenerationRow) : String × String := (self.accountId, self.publicKey)

/-- The row is that of the head's generation. -/
def At (self : GenerationRow) (h : HeadRow) : Prop := h.key = self.device ∧ h.generation = self.generation

instance (self : GenerationRow) : DecidablePred self.At := fun _ => inferInstanceAs (Decidable (_ ∧ _))

def retire (self : GenerationRow) : GenerationRow := { self with status := .revoked, revision := self.revision + 1 }

end GenerationRow

/-- `messaging_enrollment`. -/
structure EnrollmentRow where
  enrollmentId : String
  ownerId : String
  secretHash : String
  credentialId : String
  requestHash : String
  deviceId : String
  generation : Nat
  expectedRevision : Nat
  publicKey : String
  storageId : String
  keyId : String
  nonce : String
  expiresAt : Nat
  consumedProof : Option String
  deriving DecidableEq

structure Db where
  around : Accounts
  accounts : List AccountRow
  heads : List HeadRow
  generations : List GenerationRow
  enrollments : List EnrollmentRow

namespace Db

def now (self : Db) : Nat := self.around.unixepoch

/-- A row of `messaging_live_owner`. -/
def liveOwner (self : Db) (owner credential secret : String) : Prop :=
  self.around.authorised owner credential secret self.now

/-- A live owner with any credential, of the messaging account. -/
def holds (self : Db) (account secret : String) : Prop :=
  ∃ m ∈ self.accounts, m.accountId = account ∧
    ∃ ss ∈ self.around.sessions, ss.accountId = m.ownerId ∧ self.around.live secret self.now ss

instance (self : Db) (owner credential secret : String) : Decidable (self.liveOwner owner credential secret) :=
  inferInstanceAs (Decidable (self.around.authorised owner credential secret self.now))

instance (self : Db) (account secret : String) : Decidable (self.holds account secret) :=
  inferInstanceAs (Decidable (∃ m ∈ self.accounts, _))

def head (self : Db) (account device : String) : Option HeadRow := lookup HeadRow.key (account, device) self.heads

def headsOf (self : Db) (account : String) : List HeadRow := self.heads.filter (·.accountId = account)

def generationsOf (self : Db) (account : String) : List GenerationRow := self.generations.filter (·.accountId = account)

end Db

/-- `COALESCE(h.revision,0)`. -/
def revisionOf (h : Option HeadRow) : Nat := h.elim 0 HeadRow.revision

/-- `COALESCE(h.generation,0)`. -/
def generationOf (h : Option HeadRow) : Nat := h.elim 0 HeadRow.generation

/-! ## Enrollments -/

/-- The account of an owner, made where it is missing. -/
def openAccount (secret accountId : String) (d : Db) : Option Db :=
  match d.around.sessions.find? (d.around.live secret d.now) with
  | none => some d
  | some ss =>
    if ∃ m ∈ d.accounts, m.ownerId = ss.accountId then some d
    else do
      let accounts ← insert AccountRow.accountId (fun m => m.accountId.length = 36) { ownerId := ss.accountId, accountId }
        d.accounts
      return { d with accounts }

/-- The values bound to `challenge.sql`. -/
structure Challenge where
  enrollmentId : String
  secretHash : String
  requestHash : String
  deviceId : String
  expectedRevision : Nat
  publicKey : String
  storageId : String
  keyId : String
  nonce : String

/-- `challenge.sql`. -/
def Challenge.run (self : Challenge) (d : Db) : Option Db :=
  match d.around.sessions.find? (d.around.live self.secretHash d.now) with
  | none => some d
  | some ss =>
    match lookup AccountRow.ownerId ss.accountId d.accounts with
    | none => some d
    | some m =>
      let h := d.head m.accountId self.deviceId
      if (revisionOf h = self.expectedRevision ∧ generationOf h < maxSafe ∧ revisionOf h < maxSafe ∧
          (¬∃ g ∈ d.generations, g.accountId = m.accountId ∧ g.publicKey = self.publicKey) ∧
          (h.isSome ∨ (d.headsOf m.accountId).length < 8) ∧ (d.generationsOf m.accountId).length < 64 ∧
          (d.enrollments.filter (·.ownerId = ss.accountId)).length < 128 ∧
          (d.enrollments.filter fun e => e.ownerId = ss.accountId ∧ e.consumedProof = none ∧ e.expiresAt > d.now).length < 4) ∧
          ¬∃ e ∈ d.enrollments, e.enrollmentId = self.enrollmentId then do
        let e : EnrollmentRow :=
          { enrollmentId := self.enrollmentId, ownerId := ss.accountId, secretHash := self.secretHash
            credentialId := ss.credentialId, requestHash := self.requestHash, deviceId := self.deviceId
            generation := generationOf h + 1, expectedRevision := self.expectedRevision, publicKey := self.publicKey
            storageId := self.storageId, keyId := self.keyId, nonce := self.nonce, expiresAt := d.now + 60
            consumedProof := none }
        let enrollments ← insert EnrollmentRow.enrollmentId (fun e => e.enrollmentId.length = 36 ∧ e.nonce.length = 43) e
          d.enrollments
        return { d with enrollments }
      else some d

/-- The row of `messaging_enrollment_ready` for the enrollment and the secret, with its account. -/
def Db.ready (d : Db) (id secret : String) : Option (EnrollmentRow × String) := do
  let e ← lookup EnrollmentRow.enrollmentId id d.enrollments
  let m ← lookup AccountRow.ownerId e.ownerId d.accounts
  let h := d.head m.accountId e.deviceId
  require (e.secretHash = secret ∧ d.liveOwner e.ownerId e.credentialId e.secretHash ∧ e.consumedProof = none ∧
    e.expiresAt > d.now ∧ revisionOf h = e.expectedRevision ∧ generationOf h + 1 = e.generation ∧
    (¬∃ g ∈ d.generations, g.accountId = m.accountId ∧ g.publicKey = e.publicKey) ∧
    (d.generationsOf m.accountId).length < 64 ∧ (h.isSome ∨ (d.headsOf m.accountId).length < 8))
  return (e, m.accountId)

/-- The values bound to the batch of `complete`. -/
structure Completion where
  enrollmentId : String
  secretHash : String
  fingerprint : String
  scopeHash : String
  proofIat : Nat
  proofExp : Nat
  proofHash : String

namespace Completion

/-- `retire.sql`. -/
def retire (self : Completion) (d : Db) : Db :=
  match d.ready self.enrollmentId self.secretHash with
  | none => d
  | some (e, account) =>
    match d.head account e.deviceId with
    | none => d
    | some h =>
      { d with
        generations := update (fun g => g.key = (account, e.deviceId, h.generation)) GenerationRow.retire d.generations }

/-- The row that `complete.sql` inserts. -/
def generation (self : Completion) (e : EnrollmentRow) (account : String) : GenerationRow :=
  { accountId := account, deviceId := e.deviceId, generation := e.generation, revision := e.expectedRevision + 1
    publicKey := e.publicKey, status := .active, storageId := e.storageId, keyId := e.keyId
    fingerprint := self.fingerprint, scopeHash := self.scopeHash, enrollmentId := e.enrollmentId, headRevision := 0
    headHash := none }

/-- `complete.sql`; a row that conflicts with another is left out. -/
def complete (self : Completion) (d : Db) : Option Db :=
  match d.ready self.enrollmentId self.secretHash with
  | none => some d
  | some (e, account) =>
    let g := self.generation e account
    if (self.proofIat ≤ d.now ∧ self.proofExp > d.now) ∧
        ¬∃ o ∈ d.generations, o.key = g.key ∨ o.publicKeyOf = g.publicKeyOf ∨ o.scopeHash = g.scopeHash ∨
          o.enrollmentId = g.enrollmentId then do
      require (g.publicKey.length = 43 ∧ g.fingerprint.length = 43 ∧ g.scopeHash.length = 43 ∧ 0 < g.generation)
      return { d with generations := d.generations ++ [g] }
    else some d

/-- The enrollment is open for the session that asked for it. -/
def pending (self : Completion) (d : Db) (e : EnrollmentRow) : Prop :=
  e.enrollmentId = self.enrollmentId ∧ e.secretHash = self.secretHash ∧ e.consumedProof = none ∧ e.expiresAt > d.now ∧
    d.liveOwner e.ownerId e.credentialId e.secretHash

instance (self : Completion) (d : Db) : DecidablePred (self.pending d) := fun _ => inferInstanceAs (Decidable (_ ∧ _))

/-- `publish.sql`. -/
def publish (self : Completion) (d : Db) : Option Db :=
  match d.generations.find? (·.enrollmentId = self.enrollmentId) with
  | none => some d
  | some g =>
    if ∃ e ∈ d.enrollments, self.pending d e then
      match d.head g.accountId g.deviceId with
      | none => do
        require (g.generation ≤ maxSafe ∧ g.revision ≤ maxSafe)
        let h : HeadRow :=
          { accountId := g.accountId, deviceId := g.deviceId, generation := g.generation, revision := g.revision }
        return { d with heads := d.heads ++ [h] }
      | some h =>
        if h.revision + 1 = g.revision ∧ h.generation + 1 = g.generation then do
          require (g.generation ≤ maxSafe ∧ g.revision ≤ maxSafe)
          return { d with
            heads := update (fun h => h.key = g.device)
              (fun h => { h with generation := g.generation, revision := g.revision }) d.heads }
        else some d
    else some d

/-- The generation that the enrollment made is published and active. -/
def published (self : Completion) (d : Db) : Prop :=
  ∃ g ∈ d.generations, g.enrollmentId = self.enrollmentId ∧ g.status = .active ∧
    ∃ h ∈ d.heads, g.At h ∧ h.revision = g.revision

instance (self : Completion) (d : Db) : Decidable (self.published d) := List.decidableBEx _ _

/-- `consume.sql`. -/
def consume (self : Completion) (d : Db) : Db :=
  { d with
    enrollments := update (fun e => self.pending d e ∧ self.published d)
      (fun e => { e with consumedProof := some self.proofHash }) d.enrollments }

/-- `guard.sql`. -/
def guarded (self : Completion) (d : Db) : Prop :=
  (∃ e ∈ d.enrollments, e.enrollmentId = self.enrollmentId ∧ e.secretHash = self.secretHash ∧
    d.liveOwner e.ownerId e.credentialId e.secretHash ∧ e.consumedProof = some self.proofHash) ∧
    self.published d ∧ self.proofIat ≤ d.now ∧ self.proofExp > d.now

instance (self : Completion) (d : Db) : Decidable (self.guarded d) := inferInstanceAs (Decidable (_ ∧ _))

/-- The batch. -/
def run (self : Completion) (d : Db) : Option Db := do
  let d ← self.complete (self.retire d)
  let d ← self.publish d
  let d := self.consume d
  require (self.guarded d)
  return d

end Completion

/-! ## Journal heads and revocations -/

structure JournalHead where
  revision : Nat
  hash : Option String
  deriving DecidableEq

/-- A compare-and-swap of a journal head, by one revision. -/
structure Cas where
  expected : JournalHead
  next : JournalHead
  step : next.revision = expected.revision + 1

/-- The row of a generation is the current one of a device of the secret's owner. -/
def Db.owned (d : Db) (secret : String) (g : GenerationRow) : Prop := (∃ h ∈ d.heads, g.At h) ∧ d.holds g.accountId secret

instance (d : Db) (secret : String) : DecidablePred (d.owned secret) := fun _ => inferInstanceAs (Decidable (_ ∧ _))

/-- The `UPDATE` of `witness`. -/
def Cas.run (self : Cas) (scope secret : String) (d : Db) : Option Db :=
  some { d with
    generations := update (fun g => g.scopeHash = scope ∧ g.headRevision = self.expected.revision ∧
        g.headHash = self.expected.hash ∧ g.status = .active ∧ d.owned secret g)
      (fun g => { g with headRevision := self.next.revision, headHash := self.next.hash }) d.generations }

/-- The first statement of `revoke`. -/
def revokeGeneration (device secret : String) (expected : Nat) (d : Db) : Db :=
  { d with
    generations := update (fun g => g.deviceId = device ∧ g.revision = expected ∧
        (∃ h ∈ d.heads, g.At h ∧ h.revision = expected) ∧ d.holds g.accountId secret ∧ g.status = .active)
      GenerationRow.retire d.generations }

/-- The second statement of `revoke`. -/
def revokeHead (device secret : String) (expected : Nat) (d : Db) : Db :=
  { d with
    heads := update (fun h => h.deviceId = device ∧ h.revision = expected ∧
        (∃ g ∈ d.generations, g.At h ∧ g.status = .revoked ∧ g.revision = expected + 1) ∧ d.holds h.accountId secret)
      (fun h => { h with revision := h.revision + 1 }) d.heads }

inductive Tx where
  | openAccount (secret accountId : String)
  | challenge (p : Challenge)
  | complete (p : Completion)
  | advance (scope secret : String) (cas : Cas)
  | revoke (device secret : String) (expected : Nat)

def Tx.run : Tx → Db → Option Db
  | openAccount secret accountId => Messaging.openAccount secret accountId
  | challenge p => p.run
  | complete p => p.run
  | advance scope secret cas => cas.run scope secret
  | revoke device secret expected => fun d => some (revokeHead device secret expected (revokeGeneration device secret expected d))

/-- No other route writes the four tables. -/
def registry : System Db Tx where
  run := Tx.run
  drift d d' := d'.accounts = d.accounts ∧ d'.heads = d.heads ∧ d'.generations = d.generations ∧
    d'.enrollments = d.enrollments

/-! ## The handlers -/

abbrev Route := Calls Failure Db Tx

/-- `enrollment`: the row and its account, for the session that asked for it. -/
def enrollment (d : Db) (id secret : String) : Option (EnrollmentRow × String) := do
  let e ← lookup EnrollmentRow.enrollmentId id d.enrollments
  let m ← lookup AccountRow.ownerId e.ownerId d.accounts
  require (e.secretHash = secret ∧ d.liveOwner e.ownerId e.credentialId e.secretHash)
  return (e, m.accountId)

/-- `device`: the row of its current generation. -/
def device (d : Db) (id secret : String) : Option GenerationRow :=
  d.generations.find? fun g => g.deviceId = id ∧ d.owned secret g

structure Start where
  deviceId : String
  publicKey : String
  storageId : String
  keyId : String
  expectedRevision : Nat

def Start.toJson (self : Start) : Json.Value :=
  .obj [("device_id", .str self.deviceId), ("public_key", .str self.publicKey), ("storage_id", .str self.storageId),
    ("key_id", .str self.keyId), ("expected_revision", .num self.expectedRevision)]

inductive Reply where
  | enrollment (row : EnrollmentRow) (account : String)
  | binding (token : String)
  | head (h : JournalHead)
  deriving DecidableEq

/-- The result of `body`. -/
def bodyOf {α : Type} (x : Except Failure α) : Route α :=
  match x with
  | .ok a => pure a
  | .error e => throw e

section
variable [Profile]

def GenerationRow.identity (self : GenerationRow) (issuer : String) : Identity :=
  { issuer, accountId := self.accountId, deviceId := self.deviceId, generation := self.generation }

def binding (issuer id secret : String) (expected : Option String) : Route Reply := do
  let before ← read
  let g ← demand (device before id secret) (.response 404 "device_missing")
  fails (∃ e, expected = some e ∧ g.enrollmentId ≠ e) (.response 409 "device_generation_changed")
  let token ← demand (Profile.sign (g.identity issuer) g.publicKey g.revision g.status.text before.now) .server
  let after ← read
  let current ← demand (device after id secret) (.response 403 "authority_changed")
  fails (current.enrollmentId ≠ g.enrollmentId ∨ current.revision ≠ g.revision ∨ current.status ≠ g.status ∨
    after.now ≥ before.now + 300) (.response 409 "device_changed")
  return .binding token

/-- `start`; `accountId` and `nonce` are what it draws at random. -/
def start (operation : Option String) (secret : String) (body : Except Failure Start) (accountId nonce : String) :
    Route Reply := do
  let operation ← demand (operation.filter Mls.uuid) (.response 400 "operation_id_required")
  let value ← bodyOf body
  fails (Mls.uuid value.deviceId = false ∨ Mls.uuid value.storageId = false ∨ Mls.uuid value.keyId = false ∨
    decodes value.publicKey 32 = false ∨ value.expectedRevision ≥ maxSafe) (.response 400 "invalid_enrollment")
  let hash := Profile.digest (Json.Value.render value.toJson)
  let d ← read
  match enrollment d operation secret with
  | some (previous, account) =>
    fails (previous.requestHash ≠ hash) (.response 409 "operation_id_conflict")
    fails (previous.expiresAt ≤ d.now ∧ previous.consumedProof = none) (.response 410 "enrollment_expired")
    return .enrollment previous account
  | none =>
    commit (.openAccount secret accountId)
    commit (.challenge
      { enrollmentId := operation, secretHash := secret, requestHash := hash, deviceId := value.deviceId
        expectedRevision := value.expectedRevision, publicKey := value.publicKey, storageId := value.storageId
        keyId := value.keyId, nonce })
    let d ← read
    let row ← demand (enrollment d operation secret) (.response 409 "enrollment_precondition_or_limit")
    fails (row.1.requestHash ≠ hash) (.response 409 "operation_id_conflict")
    return .enrollment row.1 row.2

/-- What is left to do where the batch of a completion was not acknowledged. -/
def reconcile (issuer id secret device proofHash : String) (proofExp : Nat) : Route Reply := do
  let d ← read
  let latest ← demand (enrollment d id secret) (.response 403 "authority_changed")
  match latest.1.consumedProof with
  | some accepted =>
    fails (accepted ≠ proofHash) (.response 409 "proof_conflict")
    binding issuer device secret (some id)
  | none =>
    let ready ← read
    fails (ready.ready id secret = none ∨ d.now ≥ proofExp) (.response 409 "enrollment_conflict")
    throw (.response 503 "enrollment_unconfirmed")

def complete (issuer id secret : String) (body : Except Failure String) : Route Reply := do
  let proof ← bodyOf body
  let d ← read
  let (row, account) ← demand (enrollment d id secret) (.response 404 "enrollment_missing")
  let proofHash := Profile.digest proof
  match row.consumedProof with
  | some old =>
    fails (old ≠ proofHash) (.response 409 "proof_conflict")
    binding issuer row.deviceId secret (some id)
  | none =>
    fails (row.expiresAt ≤ d.now) (.response 410 "enrollment_expired")
    let identity : Identity := { issuer, accountId := account, deviceId := row.deviceId, generation := row.generation }
    let window ← demand (Profile.verifyProof proof identity row.publicKey row.nonce d.now)
      (.response 400 "invalid_registration_proof")
    let completed ← attempt (commit (.complete
      { enrollmentId := id, secretHash := secret, fingerprint := identity.fingerprint row.publicKey
        scopeHash := identity.scope row.publicKey row.storageId row.keyId, proofIat := window.1, proofExp := window.2
        proofHash }))
    match completed with
    | .error _ => reconcile issuer id secret row.deviceId proofHash window.2
    | .ok () => binding issuer row.deviceId secret (some id)

def JournalHead.valid (self : JournalHead) : Bool :=
  self.revision ≤ maxSafe &&
    match self.hash with
    | none => self.revision == 0
    | some h => self.revision != 0 && decodes h 32

/-- `witness`; without a body it only reads. -/
def witness (id secret : String) (body : Option (Except Failure (JournalHead × JournalHead))) : Route Reply := do
  fails (decodes id 32 = false) (.response 400 "invalid_scope")
  match body with
  | none => pure ()
  | some body =>
    let (expected, next) ← bodyOf body
    if h : (expected.valid = true ∧ next.valid = true ∧ expected.revision < maxSafe) ∧
        next.revision = expected.revision + 1 then
      commit (.advance id secret ⟨expected, next, h.2⟩)
    else throw (.response 400 "invalid_head_transition")
  let d ← read
  let g ← demand (d.generations.find? fun g => g.scopeHash = id ∧ g.status = .active ∧ d.owned secret g)
    (.response 404 "scope_missing_or_inactive")
  return .head { revision := g.headRevision, hash := g.headHash }

def revoke (issuer id secret : String) (body : Except Failure Nat) : Route Reply := do
  let expected ← bodyOf body
  fails (expected = 0 ∨ expected ≥ maxSafe) (.response 400 "invalid_revision")
  commit (.revoke id secret expected)
  let d ← read
  let g ← demand (device d id secret) (.response 404 "device_missing")
  fails (g.status ≠ .revoked ∨ g.revision ≠ expected + 1) (.response 409 "device_changed")
  binding issuer id secret none

end

end Mikaki.Messaging
