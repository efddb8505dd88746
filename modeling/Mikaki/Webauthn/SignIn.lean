import Mikaki.Dbsc.Sessions
import Mikaki.Webauthn.Ceremony

/-!
# Passkey sign-ins

A finished login consumes its transaction, commits the verified counter where
the credential is still of the revision that was read, and opens a session.
-/

namespace Mikaki.Webauthn.Login

open Concurrent Concurrent.Prog Rows Transactions Checks
open Mikaki.Vault (AccountRow ContextRow CredentialRow Failure SessionRow decode64 demand)
open Mikaki.Dbsc (validTx)

/-! ## Tables -/

/-- The open transactions of a sign-in: `login_transaction`, `owner_login_transaction` and `web_login_transaction`. -/
structure LoginRow where
  ownerLogin : Nat
  txId : String
  browserHash : String
  authorizationUrl : String
  clientId : String
  challenge : String
  expiresAt : Nat
  consumed : Bool
  failures : Nat
  requestedScope : Option String
  /-- The agent's request behind an owner login is still undecided. -/
  undecided : Bool
  deriving DecidableEq

structure PasskeyRow where
  credentialId : String
  publicKey : String
  userHandle : String
  counter : Nat
  backupEligible : Bool
  backupState : Bool
  revision : Nat
  deriving DecidableEq

/-- `app_connection`. -/
structure ConnectionRow where
  accountId : String
  clientId : String
  grantVersion : Nat
  active : Bool
  deriving DecidableEq

structure Db where
  logins : List LoginRow
  passkeys : List PasskeyRow
  credentials : List CredentialRow
  accounts : List AccountRow
  sessions : List SessionRow
  contexts : List ContextRow
  connections : List ConnectionRow
  unixepoch : Nat

/-- The table and the id. -/
def LoginRow.key (l : LoginRow) : Nat × String := (l.ownerLogin, l.txId)

def ConnectionRow.key (g : ConnectionRow) : String × String := (g.accountId, g.clientId)

namespace Db

/-- One of the three queries of `transaction`. -/
def openLogin (self : Db) (ownerLogin : Nat) (tx browserHash : String) : Option LoginRow :=
  self.logins.find? fun l => l.ownerLogin = ownerLogin ∧ l.txId = tx ∧ l.browserHash = browserHash ∧ l.consumed = false ∧
    l.failures < 5 ∧ l.expiresAt > self.unixepoch ∧ (ownerLogin = 1 → l.undecided = true)

/-- The credential with its account and its key. -/
def credential (self : Db) (id : String) : Option (CredentialRow × AccountRow × PasskeyRow) := do
  let cr ← self.credentials.find? fun cr => cr.credentialId = id ∧ cr.active = true
  let a ← self.accounts.find? fun a => a.accountId = cr.accountId ∧ a.active = true
  let p ← self.passkeys.find? fun p => p.credentialId = cr.credentialId
  return (cr, a, p)

end Db

/-! ## The batch -/

structure SignIn where
  ownerLogin : Nat
  txId : String
  browserHash : String
  clientId : String
  now : Nat
  counter : Nat
  backupState : Bool
  credentialId : String
  revision : Nat
  accountId : String
  epoch : Nat
  ssoId : String
  secretHash : String
  expiresAt : Nat

namespace SignIn

def key (self : SignIn) : Nat × String := (self.ownerLogin, self.txId)

def selects (self : SignIn) (l : LoginRow) : Prop :=
  l.key = self.key ∧ l.browserHash = self.browserHash ∧ l.consumed = false ∧ l.failures < 5 ∧ l.expiresAt > self.now ∧
    (self.ownerLogin = 1 → l.undecided = true)

instance (self : SignIn) : DecidablePred self.selects := fun _ => inferInstanceAs (Decidable (_ ∧ _))

def selectsKey (self : SignIn) (p : PasskeyRow) : Prop := p.credentialId = self.credentialId ∧ p.revision = self.revision

instance (self : SignIn) : DecidablePred self.selectsKey := fun _ => inferInstanceAs (Decidable (_ ∧ _))

def verified (self : SignIn) (p : PasskeyRow) : PasskeyRow :=
  { p with counter := self.counter, backupState := self.backupState, revision := p.revision + 1 }

def session (self : SignIn) : SessionRow := ⟨self.ssoId, self.accountId, self.credentialId, self.epoch, self.expiresAt, false⟩

def context (self : SignIn) : ContextRow := ⟨self.ssoId, self.secretHash⟩

/-- A connection that is there becomes active again, under the next version of its grant. -/
def connect (self : SignIn) (connections : List ConnectionRow) : List ConnectionRow :=
  if self.ownerLogin ≠ 0 then connections
  else if connections.any (fun g => g.key = (self.accountId, self.clientId)) = true then
    update (fun g => g.key = (self.accountId, self.clientId))
      (fun g => { g with grantVersion := if g.active = false then g.grantVersion + 1 else g.grantVersion, active := true }) connections
  else connections ++ [⟨self.accountId, self.clientId, 1, true⟩]

def run (self : SignIn) (d : Db) : Option Db := do
  require (∃ l ∈ d.logins, self.selects l)
  require (∃ p ∈ d.passkeys, self.selectsKey p)
  require (∃ a ∈ d.accounts, a.accountId = self.accountId ∧ a.active = true ∧ a.epoch = self.epoch)
  require (∃ c ∈ d.credentials, c.credentialId = self.credentialId ∧ c.accountId = self.accountId ∧ c.active = true)
  let sessions ← insert SessionRow.ssoId (fun s => 1 ≤ s.ssoId.length ∧ s.ssoId.length ≤ 128 ∧ 0 < s.expiresAt) self.session
    d.sessions
  require (∀ sx ∈ d.contexts, sx.secretHash ≠ self.secretHash)
  let contexts ← insert ContextRow.ssoId (fun s => 1 ≤ s.secretHash.length ∧ s.secretHash.length ≤ 128) self.context d.contexts
  return { d with
    logins := update self.selects (fun l => { l with consumed := true }) d.logins
    passkeys := update self.selectsKey self.verified d.passkeys
    sessions, contexts
    connections := self.connect d.connections }

end SignIn

inductive Tx where
  | signIn (p : SignIn)
  | fail (ownerLogin : Nat) (txId browserHash : String)

def Tx.run : Tx → Db → Option Db
  | signIn p, d => p.run d
  | fail ownerLogin txId browserHash, d =>
    some { d with
      logins := update (fun l => l.key = (ownerLogin, txId) ∧ l.browserHash = browserHash ∧ l.consumed = false ∧ l.failures < 5)
        (fun l => { l with failures := l.failures + 1 }) d.logins }

/-- Logins start, are denied and expire, credentials are registered, and accounts, sessions and clients change. A row that
retention would remove is past its end and may as well stay: ids are drawn. -/
def Drift (d d' : Db) : Prop :=
  (∃ registered, d'.passkeys = d.passkeys ++ registered) ∧ Unique PasskeyRow.credentialId d'.passkeys ∧
    (∀ l ∈ d.logins, ∃ l' ∈ d'.logins, l'.key = l.key ∧ (l.consumed = true → l'.consumed = true)) ∧ Unique LoginRow.key d'.logins

def signIns : System Db Tx where
  run := Tx.run
  drift := Drift

abbrev Route := Calls Failure Db Tx

/-! ## The request -/

/-- A parsed URL; `pairs` are those of its query. -/
structure Url where
  origin : String
  host : Option String
  path : String
  pairs : List (String × String)
  fragment : Option String
  deriving DecidableEq

class Web extends Webauthn.Formats where
  /-- `hash`. -/
  hash : String → String
  url : String → Option Url
  /-- The text under `origin` in strict JSON of a bounded size. -/
  originMember : Nat → List UInt8 → Option String

export Web (hash url originMember)

structure Site where
  issuer : String
  formBodyBytes : Nat
  ssoAbsoluteTtlSeconds : Nat
  /-- `android_origin` of the pinned certificate. -/
  androidOrigin : Option String
  deriving DecidableEq

structure LoginFinishInput where
  tx : String
  consent : Bool
  response : Assertion
  deriving DecidableEq

/-- A request as far as the route reads it; `input` is the body where it could be read. -/
structure Request where
  origin : Option String
  browser : Option String
  input : Option LoginFinishInput
  now : Option Nat
  deriving DecidableEq

section
variable [Web]

/-- `select_origin`: the pinned application, where the client data names it. -/
def selectOrigin (site : Site) (clientData : String) : String :=
  match site.androidOrigin with
  | none => site.issuer
  | some expected =>
    if clientData.utf8ByteSize ≤ site.formBodyBytes ∧
        (decode64 clientData >>= originMember site.formBodyBytes) = some expected then expected
    else site.issuer

/-- The lookup of an open login. -/
def transaction (tx browserHash : String) : Route (Option LoginRow) := do
  let d ← read
  match d.openLogin 0 tx browserHash with
  | some row => return some row
  | none => do
    let d ← read
    match d.openLogin 1 tx browserHash with
    | some row => return some row
    | none => do
      let d ← read
      return d.openLogin 2 tx browserHash

/-- Where an owner login goes on. -/
def checkContinuation (site : Site) (login : LoginRow) : Except Failure Unit :=
  if login.ownerLogin = 0 then .ok ()
  else
    match url login.authorizationUrl with
    | none => .error .server
    | some destination =>
      denyIf (destination.origin ≠ site.issuer ∨ destination.path ≠ "/vault" ∨ (login.ownerLogin = 2 ∧
        (destination.fragment ≠ none ∨ 1 < destination.pairs.length ∨
          ∃ pair ∈ destination.pairs, pair.1 ≠ "lang" ∨ pair.2 ∉ ["ja", "en"]))) (.response 400 "invalid_continuation")

/-- What `login_review::record` demands; what it writes is left out. -/
def checkReview (site : Site) (login : LoginRow) : Except Failure Unit :=
  if login.ownerLogin ≠ 0 ∨ login.clientId = "mikaki-internal-enrollment" then .ok ()
  else
    match url login.authorizationUrl with
    | none => .error .server
    | some destination =>
      let parameter (name : String) : Option String := ((destination.pairs.filter fun pair => pair.1 = name).getLast?).map Prod.snd
      denyIf (parameter "redirect_uri" = none ∨ destination.origin ≠ site.issuer ∨ destination.path ≠ "/authorize" ∨
        parameter "client_id" ≠ some login.clientId ∨
        ¬∃ scope ∈ login.requestedScope, scope ∈ ["openid", "openid profile", "profile openid"]) .server

/-- The ceremony of a login. -/
def ceremony (site : Site) (rpId : String) (login : LoginRow) (browserHash : String) (response : Assertion) : Ceremony :=
  { purpose := "authenticate", browserHash, expiresAt := login.expiresAt, failures := login.failures, consumed := false
    context :=
      { challenge := login.challenge, origin := selectOrigin site response.clientData, rpId, maxBytes := site.formBodyBytes
        maxDepth := 16, userVerification := .required, authentication := .discoverable, algorithms := [-7] } }

def stored (p : PasskeyRow) : StoredCredential := ⟨p.credentialId, p.publicKey, p.userHandle, p.counter, p.backupEligible⟩

def lift {α : Type} : Except Failure α → Route α
  | .ok a => pure a
  | .error e => throw e

/-- `finish` of a passkey login: the secret of its session. -/
def finish (site : Site) (request : Request) (draw : Nat → String) : Route String := do
  fails (request.origin ≠ some site.issuer) (.response 403 "")
  let browser ← demand request.browser (.response 403 "")
  let input ← demand request.input .server
  fails (input.consent = false ∨ validTx input.tx = false) (.response 400 "")
  let browserHash := hash browser
  let row ← transaction input.tx browserHash
  let login ← demand row (.response 400 "")
  lift (checkContinuation site login)
  let d ← read
  let (credential, account, passkey) ← demand (d.credential input.response.id) (.response 401 "")
  let rpId ← demand (url site.issuer >>= Url.host) .server
  let now ← demand request.now .server
  match (ceremony site rpId login browserHash input.response).authenticate browserHash now 5 (stored passkey) input.response with
  | .error _ => do
    commit (.fail login.ownerLogin input.tx browserHash)
    throw (.response 401 "")
  | .ok proof => do
    fails (proof.userVerified = false) (.response 401 "")
    lift (checkReview site login)
    commit (.signIn
      { ownerLogin := login.ownerLogin, txId := input.tx, browserHash, clientId := login.clientId, now
        counter := proof.counter, backupState := proof.backupState, credentialId := credential.credentialId
        revision := passkey.revision, accountId := credential.accountId, epoch := account.epoch, ssoId := draw 0
        secretHash := hash (draw 1), expiresAt := now + site.ssoAbsoluteTtlSeconds })
    return draw 1

end

end Mikaki.Webauthn.Login
