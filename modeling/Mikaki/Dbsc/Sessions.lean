import Mikaki.Lib.Rows
import Mikaki.Vault.Http

/-!
# Device-bound sessions

A sign-in opens a session with a secret and a challenge. A registration binds
the session to a key of the device, a refresh renews the binding; both replace
the secret. JSON, base64url, the hash of a secret and ES256 are parameters.
-/

namespace Mikaki.Dbsc

open Concurrent Concurrent.Prog Rows Transactions
open Mikaki.Vault (Accounts AccountRow ContextRow CredentialRow Failure SessionRow decode64 demand encode64)

/-! ## Proofs -/

structure PublicKey where
  kty : String
  crv : String
  x : String
  y : String
  alg : Option String
  usage : Option String
  kid : Option String

/-- The header of a proof; `extensions` are the names of its other members. -/
structure Header where
  alg : String
  typ : String
  jwk : Option PublicKey
  extensions : List String

structure Claims where
  jti : String
  aud : Option String
  key : Option PublicKey
  sub : Option String
  iat : Option Nat

class Codec extends Vault.Base64 where
  /-- `hash_secret`. -/
  hash : String → String
  header : List UInt8 → Option Header
  claims : List UInt8 → Option Claims
  jti : List UInt8 → Option String
  thumbprint : String → String
  /-- Of a key, a signature and a message; what is malformed verifies nothing. -/
  es256 : List UInt8 → List UInt8 → List UInt8 → Bool

def parts (s : String) : List String := (s.toList.splitOn '.').map String.ofList

/-- `split_compact`. -/
def splitCompact (compact : String) : Option (String × String × String) :=
  if compact.utf8ByteSize > 8192 then none
  else
    match parts compact with
    | [h, c, s] => some (h, c, s)
    | _ => none

def saturatingAdd (a b : Nat) : Nat := min (a + b) (2 ^ 64 - 1)

/-- `validate_claims`. -/
def validClaims (claims : Claims) (challenge audience : String) (now : Nat) : Prop :=
  (∀ aud, claims.aud = some aud → aud = audience) ∧ claims.jti = challenge ∧ challenge ≠ "" ∧ claims.jti.utf8ByteSize ≤ 256 ∧
    (Text.bytes claims.jti).all (fun b => !(b < 32 || b == 127)) = true ∧
    ∀ iat, claims.iat = some iat → iat ≤ saturatingAdd now 60 ∧ now ≤ saturatingAdd iat 120

instance (claims : Claims) (challenge audience : String) (now : Nat) : Decidable (validClaims claims challenge audience now) :=
  inferInstanceAs (Decidable (_ ∧ _))

def validHeader (header : Header) : Prop :=
  (∀ name ∈ ["crit", "b64", "jku", "x5u"], name ∉ header.extensions) ∧ header.alg = "ES256" ∧ header.typ = "dbsc+jwt"

instance (header : Header) : Decidable (validHeader header) := inferInstanceAs (Decidable (_ ∧ _))

/-- `Es256Verification`. -/
structure Verification where
  key : List UInt8
  signature : List UInt8
  message : List UInt8

structure RegistrationProof where
  sec1PublicKey : List UInt8
  publicKeyJwk : String
  thumbprint : String
  challenge : String
  issuedAt : Option Nat

structure RefreshProof where
  challenge : String
  sessionId : Option String
  issuedAt : Option Nat

section
variable [Codec]

/-- Canonical base64url only. -/
def decode (value : String) : Option (List UInt8) := do
  let bytes ← decode64 value
  require (encode64 bytes = value)
  return bytes

def parseRegistration (compact challenge audience : String) (now : Nat) : Option (Verification × RegistrationProof) := do
  let (h, c, s) ← splitCompact compact
  let header ← Codec.header (← decode h)
  let claims ← Codec.claims (← decode c)
  require (validHeader header)
  require (validClaims claims challenge audience now)
  require (claims.key.isNone ∨ header.jwk.isNone)
  let jwk ← claims.key.or header.jwk
  require (jwk.kty = "EC" ∧ jwk.crv = "P-256" ∧ (∀ a, jwk.alg = some a → a = "ES256") ∧ (∀ u, jwk.usage = some u → u = "sig") ∧
    ∀ k, jwk.kid = some k → k.utf8ByteSize ≤ 128)
  let x ← decode jwk.x
  let y ← decode jwk.y
  require (x.length = 32 ∧ y.length = 32)
  let quoted (s : String) : String := String.ofList [Vault.Request.quote] ++ s ++ String.ofList [Vault.Request.quote]
  let canonical := String.ofList [Char.ofNat 123] ++ quoted "crv" ++ ":" ++ quoted "P-256" ++ "," ++ quoted "kty" ++ ":" ++
    quoted "EC" ++ "," ++ quoted "x" ++ ":" ++ quoted jwk.x ++ "," ++ quoted "y" ++ ":" ++ quoted jwk.y ++
    String.ofList [Char.ofNat 125]
  let sec1 := 4 :: (x ++ y)
  return ({ key := sec1, signature := ← decode s, message := Text.bytes (h ++ "." ++ c) },
    { sec1PublicKey := sec1, publicKeyJwk := canonical, thumbprint := Codec.thumbprint canonical, challenge := claims.jti
      issuedAt := claims.iat })

def parseRefresh (compact challenge : String) (key : List UInt8) (audience session : String) (now : Nat) :
    Option (Verification × RefreshProof) := do
  let (h, c, s) ← splitCompact compact
  let header ← Codec.header (← decode h)
  let claims ← Codec.claims (← decode c)
  require (validHeader header)
  require (validClaims claims challenge audience now)
  require (∀ sub, claims.sub = some sub → sub = session)
  return ({ key, signature := ← decode s, message := Text.bytes (h ++ "." ++ c) },
    { challenge := claims.jti, sessionId := claims.sub, issuedAt := claims.iat })

def Verification.verify (self : Verification) : Prop := Codec.es256 self.key self.signature self.message = true

instance (v : Verification) : Decidable v.verify := inferInstanceAs (Decidable (_ = _))

def verifyRegistration (compact challenge audience : String) (now : Nat) : Option RegistrationProof := do
  let (verification, proof) ← parseRegistration compact challenge audience now
  require verification.verify
  return proof

def verifyRefresh (compact challenge : String) (key : List UInt8) (audience session : String) (now : Nat) :
    Option RefreshProof := do
  let (verification, proof) ← parseRefresh compact challenge key audience session now
  require verification.verify
  return proof

/-- The compact text is signed with the key and names the challenge. -/
def Signed (compact challenge : String) (key : List UInt8) : Prop :=
  ∃ h c s, splitCompact compact = some (h, c, s) ∧
    (∃ payload claims, decode c = some payload ∧ Codec.claims payload = some claims ∧ claims.jti = challenge) ∧
    ∃ signature, decode s = some signature ∧ Codec.es256 key signature (Text.bytes (h ++ "." ++ c)) = true

end

/-! ## Tables -/

/-- The open transactions of a sign-in: `login_transaction`, `owner_login_transaction` and `web_login_transaction`. -/
structure LoginRow where
  ownerLogin : Nat
  txId : String
  browserHash : String
  challenge : String
  expiresAt : Nat
  consumed : Bool
  failures : Nat
  /-- The agent's request behind an owner login is still undecided. -/
  undecided : Bool
  deriving DecidableEq

structure PasskeyRow where
  credentialId : String
  publicKey : List UInt8
  userHandle : String
  counter : Nat
  backupEligible : Bool
  backupState : Bool
  revision : Nat
  deriving DecidableEq

/-- `dbsc_session`. -/
structure BoundRow where
  sessionId : String
  ssoId : String
  publicKeySec1 : List UInt8
  publicKeyJwk : String
  createdAt : Nat
  lastRefreshedAt : Nat
  cookieExpiresAt : Nat
  deriving DecidableEq

/-- The `CHECK`s of `dbsc_session`. -/
def BoundRow.sound (r : BoundRow) : Prop :=
  1 ≤ r.sessionId.length ∧ r.sessionId.length ≤ 128 ∧ r.publicKeySec1.length = 65 ∧ 1 ≤ r.publicKeyJwk.length ∧
    r.publicKeyJwk.length ≤ 2048 ∧ 0 < r.createdAt ∧ r.createdAt ≤ r.lastRefreshedAt ∧ r.createdAt ≤ r.cookieExpiresAt

instance : DecidablePred BoundRow.sound := fun _ => inferInstanceAs (Decidable (_ ∧ _))

/-- `dbsc_challenge`. -/
structure ChallengeRow where
  challenge : String
  sessionId : Option String
  expiresAt : Nat
  deriving DecidableEq

/-- `client_redirect_uri` of an active client. -/
structure RedirectRow where
  clientId : String
  redirectUri : String
  active : Bool
  deriving DecidableEq

/-- `app_connection`. -/
structure ConnectionRow where
  accountId : String
  clientId : String
  active : Bool
  deriving DecidableEq

structure Db where
  contexts : List ContextRow
  sessions : List SessionRow
  accounts : List AccountRow
  credentials : List CredentialRow
  logins : List LoginRow
  passkeys : List PasskeyRow
  redirects : List RedirectRow
  connections : List ConnectionRow
  bound : List BoundRow
  challenges : List ChallengeRow
  unixepoch : Nat

namespace Db

/-- What `owner` reads. -/
def around (self : Db) : Accounts :=
  { contexts := self.contexts, sessions := self.sessions, accounts := self.accounts, credentials := self.credentials
    boundSessions := self.bound.map fun r => ⟨r.ssoId, r.cookieExpiresAt⟩, unixepoch := self.unixepoch }

/-- The query of the authorization endpoint. -/
def authorization (self : Db) (secretHash client redirect : String) (now : Nat) : Option SessionRow :=
  self.sessions.find? fun ss => self.around.live secretHash now ss ∧
    (¬∃ ds ∈ self.bound, ds.ssoId = ss.ssoId ∧ ds.cookieExpiresAt ≤ now) ∧
    (∃ r ∈ self.redirects, r.clientId = client ∧ r.redirectUri = redirect ∧ r.active = true) ∧
    ∃ g ∈ self.connections, g.accountId = ss.accountId ∧ g.clientId = client ∧ g.active = true

/-- The session is there, neither revoked nor expired, of the current epoch of an active account and an active credential. -/
def parent (self : Db) (sso : String) (now : Nat) : Prop :=
  ∃ s ∈ self.sessions, s.ssoId = sso ∧ s.revoked = false ∧ s.expiresAt > now ∧
    (∃ a ∈ self.accounts, a.accountId = s.accountId ∧ a.active = true ∧ a.epoch = s.epoch) ∧
    ∃ c ∈ self.credentials, c.credentialId = s.credentialId ∧ c.accountId = s.accountId ∧ c.active = true

instance (self : Db) (sso : String) (now : Nat) : Decidable (self.parent sso now) := List.decidableBEx _ _

end Db

/-- The challenge is there for the session, and has not expired. -/
def ChallengeRow.liveFor (challenge session : String) (now : Nat) (c : ChallengeRow) : Prop :=
  c.challenge = challenge ∧ c.sessionId = some session ∧ c.expiresAt > now

instance (challenge session : String) (now : Nat) : DecidablePred (ChallengeRow.liveFor challenge session now) :=
  fun _ => inferInstanceAs (Decidable (_ ∧ _))

/-- `UPDATE sso_context SET secret_hash` of the rows `p`; a secret is one session's only. -/
def rotate (p : ContextRow → Prop) [DecidablePred p] (secretHash : String) (t : List ContextRow) : Option (List ContextRow) :=
  if (∃ a ∈ t, p a) ∧ (∀ a ∈ t, ¬p a → a.secretHash ≠ secretHash) ∧ 1 ≤ secretHash.length ∧ secretHash.length ≤ 128 then
    some (update p (fun a => { a with secretHash }) t)
  else none

/-! ## Batches -/

/-- What a sign-in writes. -/
structure SignIn where
  ownerLogin : Nat
  txId : String
  browserHash : String
  now : Nat
  counter : Nat
  backupState : Bool
  credentialId : String
  revision : Nat
  accountId : String
  epoch : Nat
  ssoId : String
  secretHash : String
  expiresAt : Nat

namespace SignIn

def selects (self : SignIn) (l : LoginRow) : Prop :=
  l.ownerLogin = self.ownerLogin ∧ l.txId = self.txId ∧ l.browserHash = self.browserHash ∧ l.consumed = false ∧
    l.failures < 5 ∧ l.expiresAt > self.now ∧ (self.ownerLogin = 1 → l.undecided = true)

instance (self : SignIn) : DecidablePred self.selects := fun _ => inferInstanceAs (Decidable (_ ∧ _))

def session (self : SignIn) : SessionRow := ⟨self.ssoId, self.accountId, self.credentialId, self.epoch, self.expiresAt, false⟩

def context (self : SignIn) : ContextRow := ⟨self.ssoId, self.secretHash⟩

def run (self : SignIn) (d : Db) : Option Db := do
  require (∃ l ∈ d.logins, self.selects l)
  require (∃ p ∈ d.passkeys, p.credentialId = self.credentialId ∧ p.revision = self.revision)
  require (∃ a ∈ d.accounts, a.accountId = self.accountId ∧ a.active = true ∧ a.epoch = self.epoch)
  require (∃ c ∈ d.credentials, c.credentialId = self.credentialId ∧ c.accountId = self.accountId ∧ c.active = true)
  let sessions ← insert SessionRow.ssoId (fun s => 1 ≤ s.ssoId.length ∧ s.ssoId.length ≤ 128 ∧ 0 < s.expiresAt) self.session
    d.sessions
  require (∀ sx ∈ d.contexts, sx.secretHash ≠ self.secretHash)
  let contexts ← insert ContextRow.ssoId (fun s => 1 ≤ s.secretHash.length ∧ s.secretHash.length ≤ 128) self.context d.contexts
  return { d with
    logins := update self.selects (fun l => { l with consumed := true }) d.logins
    passkeys := update (fun p => p.credentialId = self.credentialId ∧ p.revision = self.revision)
      (fun p => { p with counter := self.counter, backupState := self.backupState, revision := p.revision + 1 }) d.passkeys
    sessions, contexts }

end SignIn

/-- What a registration writes; `currentHash` is of the secret that was presented. -/
structure Register where
  challenge : String
  ssoId : String
  currentHash : String
  newHash : String
  sessionId : String
  publicKeySec1 : List UInt8
  publicKeyJwk : String
  now : Nat

def cookieTtl : Nat := 300

namespace Register

def bound (self : Register) : BoundRow :=
  { sessionId := self.sessionId, ssoId := self.ssoId, publicKeySec1 := self.publicKeySec1, publicKeyJwk := self.publicKeyJwk
    createdAt := self.now, lastRefreshedAt := self.now, cookieExpiresAt := self.now + cookieTtl }

def run (self : Register) (d : Db) : Option Db := do
  require (∃ c ∈ d.challenges, c.liveFor self.challenge self.ssoId self.now)
  require (d.parent self.ssoId self.now)
  let contexts ← rotate (fun sx => sx.ssoId = self.ssoId ∧ sx.secretHash = self.currentHash) self.newHash d.contexts
  let bound ← insert BoundRow.sessionId BoundRow.sound self.bound d.bound
  return { d with
    challenges := d.challenges.filter fun c => ¬c.liveFor self.challenge self.ssoId self.now
    contexts, bound }

end Register

/-- What a refresh writes. -/
structure Refresh where
  challenge : String
  sessionId : String
  ssoId : String
  newHash : String
  now : Nat

namespace Refresh

def refreshed (self : Refresh) (r : BoundRow) : BoundRow :=
  { r with lastRefreshedAt := self.now, cookieExpiresAt := self.now + cookieTtl }

def run (self : Refresh) (d : Db) : Option Db := do
  require (∃ c ∈ d.challenges, c.liveFor self.challenge self.sessionId self.now)
  require (d.parent self.ssoId self.now)
  let contexts ← rotate (fun sx => sx.ssoId = self.ssoId) self.newHash d.contexts
  require (∀ r ∈ d.bound, r.sessionId = self.sessionId → (self.refreshed r).sound)
  return { d with
    challenges := d.challenges.filter fun c => ¬c.liveFor self.challenge self.sessionId self.now
    contexts
    bound := update (fun r => r.sessionId = self.sessionId) self.refreshed d.bound }

end Refresh

inductive Tx where
  | signIn (p : SignIn)
  | fail (ownerLogin : Nat) (txId browserHash : String)
  | challenge (now : Nat) (row : ChallengeRow)
  | register (p : Register)
  | refresh (p : Refresh)

def Tx.run : Tx → Db → Option Db
  | signIn p, d => p.run d
  | fail ownerLogin txId browserHash, d =>
    some { d with
      logins := update (fun l => l.ownerLogin = ownerLogin ∧ l.txId = txId ∧ l.browserHash = browserHash ∧ l.consumed = false ∧
        l.failures < 5) (fun l => { l with failures := l.failures + 1 }) d.logins }
  | challenge now row, d => do
    let challenges ← insert ChallengeRow.challenge (fun c => 16 ≤ c.challenge.length ∧ c.challenge.length ≤ 128 ∧ 0 < c.expiresAt)
      row (d.challenges.filter fun c => c.expiresAt > now)
    return { d with challenges }
  | register p, d => p.run d
  | refresh p, d => p.run d

/-- Logouts revoke sessions, and accounts, logins and clients change; nobody else writes secrets and bindings. -/
def sessions : System Db Tx where
  run := Tx.run
  drift d d' := d'.contexts = d.contexts ∧ d'.bound = d.bound ∧ d'.challenges = d.challenges ∧
    ∃ gone : SessionRow → Bool, d'.sessions = d.sessions.map fun s => { s with revoked := s.revoked || gone s }

abbrev Route := Calls Failure Db Tx

/-! ## Requests -/

/-- A request as far as the routes read it; `now_seconds` is read call after call. -/
structure Request where
  origin : Option String
  browser : Option String
  cookie : Option String
  sessionId : Option String
  response : Option String
  clock : Nat → Option Nat

/-- What a route answers with. -/
structure Reply where
  secret : Option String
  sessionId : Option String
  challenge : Option String

/-- The body of a finished login; the response of the authenticator is checked by `authenticate`. -/
structure LoginFinish where
  tx : String
  consent : Bool
  credentialId : String
  /-- `Ceremony::authenticate`: the counter, the backup state and whether the user was verified. -/
  authenticate : LoginRow → PasskeyRow → Nat → Option (Nat × Bool × Bool)

/-- `valid_tx`. -/
def validTx (tx : String) : Bool :=
  tx.utf8ByteSize == 43 && (Text.bytes tx).all fun b => Text.isAlphanumeric b || b == 45 || b == 95

/-- `structured_string`. -/
def structuredString (s : String) : Option String := do
  let value ← if s.toList.head? = some Vault.Request.quote then Vault.Request.unquote s else some s
  require (value ≠ "" ∧ (Text.bytes value).all (fun b => Text.isAlphanumeric b || b == 45 || b == 95 || b == 46) = true)
  return value

/-- The deployment. -/
structure Site where
  issuer : String
  ssoAbsoluteTtlSeconds : Nat

section
variable [Codec]

/-- `now_seconds`, its `n`th reading. -/
def Request.now (self : Request) (n : Nat) : Route Nat := demand (self.clock n) .server

/-- `create_challenge`. -/
def createChallenge (request : Request) (n : Nat) (drawn : String) (sessionId : Option String) : Route String := do
  let now ← request.now n
  commit (.challenge now ⟨drawn, sessionId, now + 120⟩)
  return drawn

def challengeEndpoint (request : Request) (draw : Nat → String) : Route Reply := do
  let challenge ← createChallenge request 0 (draw 0) none
  return ⟨none, none, some challenge⟩

/-- The lookup of an open login. -/
def transaction (d : Db) (tx browserHash : String) : Option LoginRow :=
  let row (kind : Nat) : Option LoginRow := d.logins.find? fun l =>
    l.ownerLogin = kind ∧ l.txId = tx ∧ l.browserHash = browserHash ∧ l.consumed = false ∧ l.failures < 5 ∧
      l.expiresAt > d.unixepoch ∧ (kind = 1 → l.undecided = true)
  ((row 0).or (row 1)).or (row 2)

/-- `finish` of a passkey login. -/
def finish (site : Site) (request : Request) (input : LoginFinish) (draw : Nat → String) : Route Reply := do
  fails (request.origin ≠ some site.issuer) (.response 403 "")
  let browser ← demand request.browser (.response 403 "")
  fails (input.consent = false ∨ validTx input.tx = false) (.response 400 "")
  let browserHash := Codec.hash browser
  let d ← read
  let login ← demand (transaction d input.tx browserHash) (.response 400 "")
  let d ← read
  let credential ← demand (d.credentials.find? fun c => c.credentialId = input.credentialId ∧ c.active = true) (.response 401 "")
  let account ← demand (d.accounts.find? fun a => a.accountId = credential.accountId ∧ a.active = true) (.response 401 "")
  let passkey ← demand (d.passkeys.find? fun p => p.credentialId = input.credentialId) (.response 401 "")
  let now ← request.now 0
  match input.authenticate login passkey now with
  | none => do
    commit (.fail login.ownerLogin input.tx browserHash)
    throw (.response 401 "")
  | some (counter, backupState, userVerified) => do
    fails (userVerified = false) (.response 401 "")
    commit (.signIn
      { ownerLogin := login.ownerLogin, txId := input.tx, browserHash, now, counter, backupState
        credentialId := credential.credentialId, revision := passkey.revision, accountId := credential.accountId
        epoch := account.epoch, ssoId := draw 0, secretHash := Codec.hash (draw 1), expiresAt := now + site.ssoAbsoluteTtlSeconds })
    let challenge ← attempt (createChallenge request 1 (draw 2) (some (draw 0)))
    return ⟨some (draw 1), none, challenge.toOption⟩

/-- `challenge_is_live`. -/
def challengeIsLive (challenge session : String) (now : Nat) : Route Bool := do
  let d ← read
  return decide (∃ c ∈ d.challenges, c.liveFor challenge session now)

def register (site : Site) (request : Request) (draw : Nat → String) : Route Reply := do
  let now ← request.now 0
  let cookie ← demand request.cookie (.response 401 "unauthorized")
  let d ← read
  let session ← demand (d.sessions.find? fun s => d.around.live (Codec.hash cookie) now s) (.response 401 "invalid_session")
  let header ← demand request.response (.response 400 "missing_session_response")
  let jwt ← demand (structuredString header) (.response 400 "malformed_session_response")
  fails ((parts jwt).length ≠ 3) (.response 400 "malformed_jwt")
  let payload ← demand ((parts jwt)[1]?.bind decode64) .server
  let jti ← demand (Codec.jti payload) .server
  let verified ← demand (verifyRegistration jwt jti (site.issuer ++ "/dbsc/register") now) (.response 400 "invalid_proof")
  let result ← attempt (commit (.register
    { challenge := jti, ssoId := session.ssoId, currentHash := Codec.hash cookie, newHash := Codec.hash (draw 1)
      sessionId := draw 0, publicKeySec1 := verified.sec1PublicKey, publicKeyJwk := verified.publicKeyJwk, now }))
  if result.isOk = true then return ⟨some (draw 1), some (draw 0), none⟩
  else do
    let live ← challengeIsLive jti session.ssoId now
    fails (live = false) (.response 400 "invalid_or_expired_challenge")
    throw (.response 500 "registration_failed")

/-- `rechallenge`. -/
def rechallenge (request : Request) (n : Nat) (drawn sessionId : String) : Route Reply := do
  let challenge ← createChallenge request n drawn (some sessionId)
  return ⟨none, some sessionId, some challenge⟩

def refresh (site : Site) (request : Request) (draw : Nat → String) : Route Reply := do
  let now ← request.now 0
  let header ← demand request.sessionId (.response 400 "missing_session_id")
  let sessionId ← demand (structuredString header) (.response 400 "invalid_session_id")
  let d ← read
  fails (¬∃ r ∈ d.bound, r.sessionId = sessionId ∧ d.parent r.ssoId now) (.response 401 "unknown_dbsc_session")
  match request.response with
  | none => rechallenge request 1 (draw 0) sessionId
  | some header => do
    let jwt ← demand (structuredString header) (.response 400 "malformed_session_response")
    fails ((parts jwt).length ≠ 3) (.response 400 "malformed_jwt")
    let jti ← demand (((parts jwt)[1]?.bind decode64).bind Codec.jti) (.response 400 "malformed_jwt")
    let d ← read
    let session ← demand (lookup BoundRow.sessionId sessionId d.bound) (.response 401 "unknown_dbsc_session")
    let d ← read
    fails (¬((∃ sx ∈ d.contexts, sx.ssoId = session.ssoId) ∧ d.parent session.ssoId now)) (.response 401 "parent_session_expired")
    let _ ← demand (verifyRefresh jwt jti session.publicKeySec1 (site.issuer ++ "/dbsc/refresh") sessionId now)
      (.response 400 "invalid_proof")
    let live ← challengeIsLive jti sessionId now
    if live = false then rechallenge request 1 (draw 0) sessionId
    else do
      let result ← attempt (commit (.refresh
        { challenge := jti, sessionId, ssoId := session.ssoId, newHash := Codec.hash (draw 0), now }))
      if result.isOk = true then do
        let challenge ← createChallenge request 1 (draw 1) (some sessionId)
        return ⟨some (draw 0), some sessionId, some challenge⟩
      else do
        let live ← challengeIsLive jti sessionId now
        if live = false then rechallenge request 1 (draw 1) sessionId
        else throw (.response 500 "refresh_failed")

end

inductive Call where
  | signIn (request : Request) (input : LoginFinish)
  | challenge (request : Request)
  | register (request : Request)
  | refresh (request : Request)

/-- The program of a call with what it draws. -/
def Call.program [Codec] (site : Site) (draw : Nat → String) : Call → Route Reply
  | signIn request input => finish site request input draw
  | challenge request => challengeEndpoint request draw
  | register request => Dbsc.register site request draw
  | refresh request => Dbsc.refresh site request draw

end Mikaki.Dbsc
