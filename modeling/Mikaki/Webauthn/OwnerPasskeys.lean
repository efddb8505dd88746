import Mikaki.Webauthn.SignIn

/-!
# Passkeys of an owner

A session that was authenticated a moment ago opens a registration, and a
finished registration adds a credential to the session's account.
-/

namespace Mikaki.Webauthn.OwnerPasskeys

open Concurrent Concurrent.Prog Rows Transactions Checks
open Mikaki.Vault (AccountRow Accounts BoundSessionRow CredentialRow Failure Owner SessionRow demand encode64)
open Mikaki.Dbsc (validTx)
open Login (PasskeyRow Site url selectOrigin)

/-! ## Tables -/

/-- `sso_context`. -/
structure ContextRow extends Vault.ContextRow where
  authTime : Nat
  deriving DecidableEq

/-- `owner_passkey_registration`. -/
structure RegistrationRow where
  transactionId : String
  accountId : String
  sessionHash : String
  challenge : String
  userHandle : String
  expiresAt : Nat
  failures : Nat
  credentialId : Option String
  requestHash : Option String
  consumed : Bool
  deriving DecidableEq

structure Db where
  contexts : List ContextRow
  sessions : List SessionRow
  boundSessions : List BoundSessionRow
  accounts : List AccountRow
  credentials : List CredentialRow
  passkeys : List PasskeyRow
  registrations : List RegistrationRow
  unixepoch : Nat

namespace Db

/-- What `owner` reads. -/
def around (self : Db) : Accounts :=
  { contexts := self.contexts.map ContextRow.toContextRow, sessions := self.sessions, boundSessions := self.boundSessions
    accounts := self.accounts, credentials := self.credentials, unixepoch := self.unixepoch }

/-- The session behind a secret is live, and was authenticated less than five minutes ago. -/
def fresh (self : Db) (secretHash : String) (now : Nat) (ss : SessionRow) : Prop :=
  (∃ sx ∈ self.contexts, sx.secretHash = secretHash ∧ sx.ssoId = ss.ssoId ∧ now < sx.authTime + 300) ∧ ss.revoked = false ∧
    now < ss.expiresAt ∧ (∃ a ∈ self.accounts, a.accountId = ss.accountId ∧ a.active = true ∧ a.epoch = ss.epoch) ∧
    ∃ c ∈ self.credentials, c.credentialId = ss.credentialId ∧ c.accountId = ss.accountId ∧ c.active = true

instance (self : Db) (secretHash : String) (now : Nat) : DecidablePred (self.fresh secretHash now) :=
  fun _ => inferInstanceAs (Decidable (_ ∧ _))

/-- How many active credentials the account has. -/
def active (self : Db) (account : String) : Nat := self.credentials.countP fun c => c.accountId = account ∧ c.active = true

end Db

/-! ## Statements -/

/-- What `start` inserts. -/
structure Start where
  transactionId : String
  challenge : String
  accountId : String
  secretHash : String
  now : Nat

namespace Start

/-- The row, where the session is fresh and there is room. -/
def row (self : Start) (d : Db) : Option RegistrationRow := do
  let ss ← d.sessions.find? fun ss => ss.accountId = self.accountId ∧ d.fresh self.secretHash self.now ss
  let p ← d.passkeys.find? fun p => p.credentialId = ss.credentialId
  require (d.active self.accountId < 10)
  require ((d.registrations.countP fun r => r.accountId = self.accountId ∧ r.consumed = false ∧ self.now < r.expiresAt) < 5)
  return { transactionId := self.transactionId, accountId := self.accountId, sessionHash := self.secretHash
           challenge := self.challenge, userHandle := p.userHandle, expiresAt := self.now + 300, failures := 0
           credentialId := none, requestHash := none, consumed := false }

def run (self : Start) (d : Db) : Option Db :=
  match self.row d with
  | none => some d
  | some row => (insert RegistrationRow.transactionId (fun r => r.transactionId.length = 43) row d.registrations).map
      fun registrations => { d with registrations }

end Start

/-- What `finish` writes. -/
structure Register where
  transactionId : String
  accountId : String
  secretHash : String
  requestHash : String
  now : Nat
  userHandle : String
  proof : VerifiedRegistration

namespace Register

def selects (self : Register) (r : RegistrationRow) : Prop :=
  r.transactionId = self.transactionId ∧ r.consumed = false ∧ r.failures < 5 ∧ self.now < r.expiresAt

instance (self : Register) : DecidablePred self.selects := fun _ => inferInstanceAs (Decidable (_ ∧ _))

def consume (self : Register) (r : RegistrationRow) : RegistrationRow :=
  { r with consumed := true, credentialId := some self.proof.id, requestHash := some self.requestHash }

def credential (self : Register) : CredentialRow := ⟨self.proof.id, self.accountId, true⟩

def passkey (self : Register) : PasskeyRow :=
  ⟨self.proof.id, self.proof.publicKey, self.userHandle, self.proof.counter, self.proof.backupEligible, self.proof.backupState, 1⟩

def run (self : Register) (d : Db) : Option Db := do
  require (∃ r ∈ d.registrations, self.selects r)
  require (∃ ss ∈ d.sessions, ss.accountId = self.accountId ∧ d.fresh self.secretHash self.now ss)
  require (d.active self.accountId < 10)
  let credentials ← insert CredentialRow.credentialId (fun c => 1 ≤ c.credentialId.length ∧ c.credentialId.length ≤ 512)
    self.credential d.credentials
  let passkeys ← insert PasskeyRow.credentialId (fun p => 1 ≤ p.publicKey.length ∧ p.publicKey.length ≤ 4096 ∧
    1 ≤ p.userHandle.length ∧ p.userHandle.length ≤ 128) self.passkey d.passkeys
  return { d with registrations := update self.selects self.consume d.registrations, credentials, passkeys }

end Register

inductive Tx where
  | sweep (now : Nat)
  | start (p : Start)
  | fail (transactionId : String)
  | register (p : Register)

/-- The rows that a failed proof counts for. -/
def counted (transactionId : String) (r : RegistrationRow) : Prop :=
  r.transactionId = transactionId ∧ r.consumed = false ∧ r.failures < 5

instance (transactionId : String) : DecidablePred (counted transactionId) := fun _ => inferInstanceAs (Decidable (_ ∧ _))

def Tx.run : Tx → Db → Option Db
  | sweep now, d => some { d with registrations := d.registrations.filter fun r => now - 86400 ≤ r.expiresAt }
  | start p, d => p.run d
  | fail transactionId, d =>
    some { d with registrations := update (counted transactionId) (fun r => { r with failures := r.failures + 1 }) d.registrations }
  | register p, d => p.run d

/-- Retention removes registrations; sign-ins, logouts and other registrations change the rest. No secret ever serves another
session than `session` says, and no credential changes its account, its key or its user. -/
def Drift (session : String → String) (d d' : Db) : Prop :=
  (∃ kept : RegistrationRow → Bool, d'.registrations = d.registrations.filter kept) ∧
    (∀ sx ∈ d'.contexts, sx.ssoId = session sx.secretHash) ∧
    (∀ c ∈ d.credentials, ∃ c' ∈ d'.credentials, c'.credentialId = c.credentialId ∧ c'.accountId = c.accountId) ∧
    Unique CredentialRow.credentialId d'.credentials ∧
    (∀ p ∈ d.passkeys, ∃ p' ∈ d'.passkeys, p'.credentialId = p.credentialId ∧ p'.publicKey = p.publicKey ∧
      p'.userHandle = p.userHandle) ∧ Unique PasskeyRow.credentialId d'.passkeys

def passkeys (session : String → String) : System Db Tx where
  run := Tx.run
  drift := Drift session

abbrev Route := Calls Failure Db Tx

/-! ## Requests -/

/-- A request; `authorityCurrent` is what `require_current` finds. -/
structure Request extends Vault.Request where
  authorityCurrent : Bool

structure Finish where
  transactionId : String
  response : Registration

inductive Reply where
  | started (transactionId challenge userHandle rpId : String) (excluded : List String)
  | registered (credentialId : String)
  deriving DecidableEq

class Bodies extends Login.Web where
  /-- Strict JSON of a bounded size and depth, and the members of `Finish`. -/
  finish : String → Option Finish

section
variable [Bodies]

/-- `hash` of `passkey_login`. -/
def hash (value : String) : String := encode64 (Sha.sha256 (Text.bytes value))

/-- The context of a registration. -/
def context (site : Site) (rpId challenge : String) (response : Registration) : Context :=
  { challenge, origin := selectOrigin { site with formBodyBytes := 64 * 1024 } response.clientData, rpId, maxBytes := 64 * 1024
    maxDepth := 16, userVerification := .required, authentication := .discoverable, algorithms := [-7] }

def rpId (site : Site) : Option String := url site.issuer >>= Login.Url.host

def start (site : Site) (request : Request) (draw : Nat → String) : Route Reply := do
  fails (request.sameOrigin = false) (.response 403 "origin_required")
  let found ← Vault.owner Db.around request.toRequest 0
  let owner ← demand found (.response 401 "authentication_required")
  let now ← request.now 1
  commit (.sweep now)
  commit (.start { transactionId := draw 0, challenge := draw 1, accountId := owner.accountId, secretHash := owner.secretHash, now })
  let d ← read
  let row ← demand (d.registrations.find? fun r => r.transactionId = draw 0) (.response 403 "fresh_login_or_capacity_required")
  let d ← read
  let rpId ← demand (rpId site) .server
  let ids := ((d.credentials.filter fun c => c.accountId = owner.accountId).map CredentialRow.credentialId).mergeSort (· ≤ ·)
  return .started (draw 0) row.challenge row.userHandle rpId (ids.take 10)

/-- The row that a registration is finished for. -/
def Db.opened (d : Db) (transactionId : String) (owner : Owner) (now : Nat) : Option RegistrationRow :=
  d.registrations.find? fun r => r.transactionId = transactionId ∧ r.accountId = owner.accountId ∧
    r.sessionHash = owner.secretHash ∧ now < r.expiresAt ∧ r.failures < 5

/-- The ceremony of a row, which also wants the user verified. -/
def verify (site : Site) (rpId : String) (row : RegistrationRow) (owner : Owner) (now : Nat) (response : Registration) :
    Option VerifiedRegistration :=
  let ceremony : Ceremony :=
    { purpose := "register", browserHash := owner.secretHash, expiresAt := row.expiresAt, failures := row.failures, consumed := false
      context := context site rpId row.challenge response }
  match ceremony.register owner.secretHash now 5 response with
  | .ok proof => if proof.userVerified = true then some proof else none
  | .error _ => none

def finish (site : Site) (request : Request) : Route Reply := do
  fails (request.sameOrigin = false) (.response 403 "origin_required")
  fails (request.contentType ≠ some "application/json") (.response 415 "json_required")
  let found ← Vault.owner Db.around request.toRequest 0
  let owner ← demand found (.response 401 "authentication_required")
  let body ← demand request.body (.response 413 "invalid_body")
  let input ← demand (Bodies.finish body) (.response 400 "invalid_body")
  fails (validTx input.transactionId = false) (.response 400 "invalid_transaction")
  let now ← request.now 1
  let d ← read
  let row ← demand (d.opened input.transactionId owner now) (.response 400 "invalid_transaction")
  let rpId ← demand (rpId site) .server
  match verify site rpId row owner now input.response with
  | none => do
    commit (.fail input.transactionId)
    throw (.response 401 "invalid_registration")
  | some proof => do
    fails (request.authorityCurrent = false) .server
    if row.consumed = true then do
      fails (¬(row.credentialId = some proof.id ∧ row.requestHash = some (hash body))) (.response 409 "transaction_reused")
      return .registered proof.id
    else do
      let done ← attempt (commit (.register
        { transactionId := input.transactionId, accountId := owner.accountId, secretHash := owner.secretHash
          requestHash := hash body, now, userHandle := row.userHandle, proof }))
      fails (done.isOk = false) (.response 409 "registration_conflict")
      return .registered proof.id

end

inductive Call where
  | start (request : Request)
  | finish (request : Request)

def Call.program [Bodies] (site : Site) (draw : Nat → String) : Call → Route Reply
  | start request => OwnerPasskeys.start site request draw
  | finish request => OwnerPasskeys.finish site request

end Mikaki.Webauthn.OwnerPasskeys
