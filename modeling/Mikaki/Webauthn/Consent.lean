import Mikaki.Webauthn.SignIn

/-!
# Consent and sign-ins

A release lets a client read claims of an account over their connection. Two
triggers stop the releases of a connection at every update of its row, and a
sign-in updates that row: to make the connection active, and to record under
which redirect and scope it was reviewed.
-/

namespace Mikaki.Webauthn.Login

open Rows Checks
open Mikaki.Vault (Failure)

/-! ## Tables -/

/-- What a vault claim is released from. -/
structure ReleaseSource where
  storageVersion : Nat
  origin : Option String
  vaultId : Option String
  collectionId : Option String
  recordId : Option String
  kind : Option String
  ciphertextSha256 : Option String
  keyGeneration : Option Nat
  ownerKeyRevision : Option Nat
  deriving DecidableEq

/-- The condition of `vault_claim_release_source_update`. -/
def ReleaseSource.valid (self : ReleaseSource) : Prop :=
  (self.storageVersion = 1 ∧ self.origin = none ∧ self.vaultId = none ∧ self.collectionId = none ∧ self.recordId = none ∧
      self.kind = none ∧ self.ciphertextSha256 = none ∧ self.keyGeneration = none ∧ self.ownerKeyRevision = none) ∨
    (self.storageVersion = 2 ∧ self.origin ≠ none ∧ self.vaultId ≠ none ∧ self.collectionId = some "personal" ∧
      self.recordId = some "name" ∧ self.kind = some "name" ∧
      self.ciphertextSha256.all (fun digest => digest.length = 43) = true ∧ self.ciphertextSha256 ≠ none ∧
      self.keyGeneration.all (fun n => 1 ≤ n ∧ n ≤ 9007199254740991) = true ∧ self.keyGeneration ≠ none ∧
      self.ownerKeyRevision.all (fun n => 1 ≤ n ∧ n ≤ 9007199254740991) = true ∧ self.ownerKeyRevision ≠ none)

instance (self : ReleaseSource) : Decidable self.valid := inferInstanceAs (Decidable (_ ∨ _))

/-- `vault_claim_release`, of the claim `name`. -/
structure VaultReleaseRow where
  accountId : String
  clientId : String
  attributeRevision : Nat
  systemGrantVersion : Nat
  clientRevision : Nat
  connectionGrantVersion : Nat
  version : Nat
  active : Bool
  expiresAt : Nat
  updatedAt : Nat
  source : ReleaseSource
  deriving DecidableEq

/-- `identity_claim_release`. -/
structure IdentityReleaseRow where
  accountId : String
  clientId : String
  documentId : String
  epoch : Nat
  clientRevision : Nat
  connectionGrantVersion : Nat
  fields : List String
  expiresAt : Nat
  version : Nat
  active : Bool
  deriving DecidableEq

structure ClientRow where
  clientId : String
  revision : Nat
  active : Bool
  deriving DecidableEq

structure RedirectRow where
  clientId : String
  redirectUri : String
  active : Bool
  deriving DecidableEq

/-- The columns of a connection that say how it was reviewed. -/
structure ReviewRow where
  accountId : String
  clientId : String
  redirectUri : String
  scope : String
  clientRevision : Option Nat
  grantVersion : Nat
  deriving DecidableEq

/-- The database of the sign-ins, with what is released over its connections. -/
structure ConsentDb where
  base : Db
  clients : List ClientRow
  redirects : List RedirectRow
  /-- `client_revision` of the login transactions. -/
  loginRevisions : List (String × Nat)
  reviews : List ReviewRow
  vaultReleases : List VaultReleaseRow
  identityReleases : List IdentityReleaseRow

/-! ## Triggers -/

def VaultReleaseRow.of (accountId clientId : String) (r : VaultReleaseRow) : Prop :=
  r.accountId = accountId ∧ r.clientId = clientId ∧ r.active = true

instance (accountId clientId : String) : DecidablePred (VaultReleaseRow.of accountId clientId) :=
  fun _ => inferInstanceAs (Decidable (_ ∧ _))

def IdentityReleaseRow.of (accountId clientId : String) (r : IdentityReleaseRow) : Prop :=
  r.accountId = accountId ∧ r.clientId = clientId ∧ r.active = true

instance (accountId clientId : String) : DecidablePred (IdentityReleaseRow.of accountId clientId) :=
  fun _ => inferInstanceAs (Decidable (_ ∧ _))

def VaultReleaseRow.revoked (now : Nat) (r : VaultReleaseRow) : VaultReleaseRow :=
  { r with active := false, version := r.version + 1, updatedAt := now }

def IdentityReleaseRow.revoked (r : IdentityReleaseRow) : IdentityReleaseRow :=
  { r with active := false, fields := [], version := r.version + 1 }

/-- `vault_claim_release_connection_change_revoke` and `identity_release_connection_change`, after an update of a connection. -/
def ConsentDb.connectionUpdated (self : ConsentDb) (accountId clientId : String) : Option ConsentDb := do
  require (∀ r ∈ self.vaultReleases, r.of accountId clientId → r.source.valid ∧ 0 < self.base.unixepoch)
  return { self with
    vaultReleases := update (VaultReleaseRow.of accountId clientId) (VaultReleaseRow.revoked self.base.unixepoch) self.vaultReleases
    identityReleases := update (IdentityReleaseRow.of accountId clientId) IdentityReleaseRow.revoked self.identityReleases }

/-! ## The batch -/

/-- What `login_review::record` binds beside the login. -/
structure Review where
  redirect : String
  scope : String
  deriving DecidableEq

structure ConsentBatch where
  signIn : SignIn
  review : Option Review

namespace SignIn

/-- The connection that the sign-in is for. -/
def connection (self : SignIn) : String × String := (self.accountId, self.clientId)

/-- The insertion of the connection finds one. -/
def reconnects (self : SignIn) (d : Db) : Prop := self.ownerLogin = 0 ∧ ∃ g ∈ d.connections, g.key = self.connection

instance (self : SignIn) (d : Db) : Decidable (self.reconnects d) := inferInstanceAs (Decidable (_ ∧ _))

/-- The condition of `record-login-review.sql`. -/
def reviews (self : SignIn) (r : Review) (d : ConsentDb) : Prop :=
  (∃ g ∈ d.base.connections, g.key = self.connection ∧ g.active = true) ∧
    ∃ l ∈ d.base.logins, l.key = (0, self.txId) ∧ l.browserHash = self.browserHash ∧ l.clientId = self.clientId ∧
      l.consumed = true ∧ l.requestedScope = some r.scope ∧
      ∃ c ∈ d.clients, c.clientId = l.clientId ∧ c.active = true ∧ (self.txId, c.revision) ∈ d.loginRevisions ∧
        ∃ u ∈ d.redirects, u.clientId = c.clientId ∧ u.redirectUri = r.redirect ∧ u.active = true

instance (self : SignIn) (r : Review) (d : ConsentDb) : Decidable (self.reviews r d) := inferInstanceAs (Decidable (_ ∧ _))

/-- The reviewed columns after the update. -/
def reviewed (self : SignIn) (r : Review) (d : ConsentDb) : List ReviewRow :=
  let revision := (d.clients.find? fun c => c.clientId = self.clientId).map ClientRow.revision
  d.reviews.filter (fun x => (x.accountId, x.clientId) ≠ self.connection) ++
    (d.base.connections.filter fun g => g.key = self.connection ∧ g.active = true).map fun g =>
      ⟨self.accountId, self.clientId, r.redirect, r.scope, revision, g.grantVersion⟩

end SignIn

namespace ConsentBatch

/-- The statements of the sign-in, with the triggers where the connection is updated. -/
def connected (self : ConsentBatch) (d : ConsentDb) : Option ConsentDb := do
  let base ← self.signIn.run d.base
  let later := { d with base }
  if self.signIn.reconnects d.base then later.connectionUpdated self.signIn.accountId self.signIn.clientId else return later

def run (self : ConsentBatch) (d : ConsentDb) : Option ConsentDb := do
  let d ← self.connected d
  match self.review with
  | none => return d
  | some r => do
    require (self.signIn.reviews r d)
    let later := { d with reviews := self.signIn.reviewed r d }
    later.connectionUpdated self.signIn.accountId self.signIn.clientId

end ConsentBatch

/-! ## The review of a login -/

/-- A parsed redirect. -/
structure Endpoint where
  scheme : String
  serialized : String
  username : String
  password : Option String
  query : Option String
  fragment : Option String
  path : String
  /-- The host is 127.0.0.1 or ::1. -/
  localhost : Bool
  port : Option Nat
  /-- The same under port 0. -/
  template : String

class Redirects extends Web where
  endpoint : String → Option Endpoint

section
variable [Redirects]

def loopbackRedirectTemplate (actual : String) : Option String := do
  let e ← Redirects.endpoint actual
  if e.scheme ≠ "http" ∨ e.serialized ≠ actual ∨ e.username ≠ "" ∨ e.password ≠ none ∨ e.query ≠ none ∨ e.fragment ≠ none ∨
      e.path = "/" ∨ e.localhost = false ∨ e.port.all (· = 0) = true then none
  else some e.template

def reviewScope (value : String) : String := if value = "profile openid" then "openid profile" else value

/-- `login_review::record`. -/
def record (site : Site) (login : LoginRow) : Except Failure (Option Review) :=
  if login.ownerLogin ≠ 0 ∨ login.clientId = "mikaki-internal-enrollment" then .ok none
  else
    match url login.authorizationUrl with
    | none => .error .server
    | some destination =>
      let parameter (name : String) : Option String := ((destination.pairs.filter fun pair => pair.1 = name).getLast?).map Prod.snd
      match parameter "redirect_uri" with
      | none => .error .server
      | some redirect =>
        match login.requestedScope with
        | none => .error .server
        | some requested =>
          if destination.origin ≠ site.issuer ∨ destination.path ≠ "/authorize" ∨ parameter "client_id" ≠ some login.clientId ∨
              requested ∉ ["openid", "openid profile", "profile openid"] then .error .server
          else .ok (some ⟨(loopbackRedirectTemplate redirect).getD redirect, reviewScope requested⟩)

/-- What `record` demands is what `checkReview` checks. -/
theorem record_check (site : Site) (login : LoginRow) : (record site login).map (fun _ => ()) = checkReview site login := by
  unfold record checkReview
  by_cases ho : login.ownerLogin ≠ 0 ∨ login.clientId = "mikaki-internal-enrollment"
  · rw [if_pos ho, if_pos ho]
    rfl
  · rw [if_neg ho, if_neg ho]
    cases url login.authorizationUrl with
    | none => rfl
    | some destination =>
      dsimp only
      unfold denyIf
      split
      · rename_i hr
        rw [if_pos (.inl hr)]
        rfl
      · rename_i redirect hr
        have hne : ((destination.pairs.filter fun pair => pair.1 = "redirect_uri").getLast?).map Prod.snd ≠ none := by
          rw [hr]
          exact Option.some_ne_none redirect
        split
        · rename_i hscope
          rw [if_pos (by simp [hscope])]
          rfl
        · rename_i requested hscope
          by_cases hc : destination.origin ≠ site.issuer ∨ destination.path ≠ "/authorize" ∨
              ((destination.pairs.filter fun pair => pair.1 = "client_id").getLast?).map Prod.snd ≠ some login.clientId ∨
              requested ∉ ["openid", "openid profile", "profile openid"]
          · rw [if_pos hc, if_pos (.inr (by simpa [hscope] using hc))]
            rfl
          · rw [if_neg hc, if_neg (not_or.mpr ⟨hne, by simpa [hscope] using hc⟩)]
            rfl

end

/-! ## What a sign-in leaves of the releases -/

variable {d d' : ConsentDb} {accountId clientId : String}

def ConsentDb.Released (accountId clientId : String) (d : ConsentDb) : Prop :=
  (∃ r ∈ d.vaultReleases, r.of accountId clientId) ∨ ∃ r ∈ d.identityReleases, r.of accountId clientId

/-- Both kinds of releases of the connection are kept. -/
def ConsentDb.KeepsReleases (accountId clientId : String) (d d' : ConsentDb) : Prop :=
  (∀ r ∈ d.vaultReleases, r.of accountId clientId → r ∈ d'.vaultReleases) ∧
    ∀ r ∈ d.identityReleases, r.of accountId clientId → r ∈ d'.identityReleases

theorem connectionUpdated_some (h : d.connectionUpdated accountId clientId = some d') :
    d'.base = d.base ∧
      d'.vaultReleases = update (VaultReleaseRow.of accountId clientId) (VaultReleaseRow.revoked d.base.unixepoch) d.vaultReleases ∧
      d'.identityReleases = update (IdentityReleaseRow.of accountId clientId) IdentityReleaseRow.revoked d.identityReleases := by
  simp only [ConsentDb.connectionUpdated, Option.bind_eq_bind, Option.bind_eq_some_iff, exists_unit, require_eq_some,
    Option.pure_def, Option.some.injEq] at h
  obtain ⟨-, rfl⟩ := h
  exact ⟨rfl, rfl, rfl⟩

/-- An update of the connection leaves no release of it active. -/
theorem connectionUpdated_stops (h : d.connectionUpdated accountId clientId = some d') : ¬d'.Released accountId clientId := by
  obtain ⟨-, hv, hi⟩ := connectionUpdated_some h
  intro hr
  rcases hr with ⟨r, hr, hof⟩ | ⟨r, hr, hof⟩
  · rw [hv, mem_update] at hr
    obtain ⟨x, -, ⟨-, rfl⟩ | ⟨hn, rfl⟩⟩ := hr
    · cases hof.2.2
    · exact hn hof
  · rw [hi, mem_update] at hr
    obtain ⟨x, -, ⟨-, rfl⟩ | ⟨hn, rfl⟩⟩ := hr
    · cases hof.2.2
    · exact hn hof

theorem SignIn.run_connections {p : SignIn} {d d' : Db} (h : p.run d = some d') : d'.connections = p.connect d.connections := by
  simp only [SignIn.run, Option.bind_eq_bind, Option.bind_eq_some_iff, exists_unit, require_eq_some, insert_eq_some, Option.pure_def,
    Option.some.injEq] at h
  obtain ⟨-, -, -, -, sessions, ⟨-, rfl⟩, -, contexts, -, rfl⟩ := h
  rfl

/-- A connection that is there becomes active, and is under the next grant if it was not. -/
theorem SignIn.connect_mem {p : SignIn} (hp : p.ownerLogin = 0) {connections : List ConnectionRow} {g : ConnectionRow}
    (hg : g ∈ connections) (hk : g.key = p.connection) :
    { g with grantVersion := if g.active = false then g.grantVersion + 1 else g.grantVersion, active := true } ∈
      p.connect connections := by
  have hany : connections.any (fun g => g.key = (p.accountId, p.clientId)) = true :=
    List.any_eq_true.mpr ⟨g, hg, decide_eq_true hk⟩
  unfold SignIn.connect
  rw [if_neg (not_not.mpr hp), if_pos hany]
  exact mem_update.mpr ⟨g, hg, .inl ⟨hk, rfl⟩⟩

namespace ConsentBatch

variable {b : ConsentBatch}

theorem run_base (h : b.run d = some d') : ∃ base, b.signIn.run d.base = some base ∧ d'.base = base := by
  have hconnected : ∀ x, b.connected d = some x → ∃ base, b.signIn.run d.base = some base ∧ x.base = base := by
    intro x hx
    simp only [connected, Option.bind_eq_bind, Option.bind_eq_some_iff] at hx
    obtain ⟨base, hbase, hx⟩ := hx
    refine ⟨base, hbase, ?_⟩
    split at hx
    · exact (connectionUpdated_some hx).1
    · cases hx
      rfl
  simp only [run, Option.bind_eq_bind, Option.bind_eq_some_iff] at h
  obtain ⟨x, hx, h⟩ := h
  obtain ⟨base, hbase, he⟩ := hconnected x hx
  refine ⟨base, hbase, ?_⟩
  split at h
  · cases h
    exact he
  · simp only [Option.bind_eq_some_iff] at h
    obtain ⟨-, -, h⟩ := h
    exact (connectionUpdated_some h).1.trans he

/-- A sign-in over a connection that is there leaves no release of it. -/
theorem run_stops (h : b.run d = some d') (hr : b.signIn.reconnects d.base) :
    ¬d'.Released b.signIn.accountId b.signIn.clientId := by
  simp only [run, connected, Option.bind_eq_bind, Option.bind_eq_some_iff, if_pos hr] at h
  obtain ⟨x, ⟨base, -, hx⟩, h⟩ := h
  split at h
  · cases h
    exact connectionUpdated_stops hx
  · simp only [Option.bind_eq_some_iff] at h
    obtain ⟨-, -, h⟩ := h
    exact connectionUpdated_stops h

end ConsentBatch

/-- A sign-in to a client keeps what was consented to over an active connection; only where it makes the connection active again
the grant advances and the old releases stop. -/
structure KeepsConsent (p : SignIn) (d d' : ConsentDb) : Prop where
  repeated : ∀ g ∈ d.base.connections, g.key = p.connection → g.active = true →
    g ∈ d'.base.connections ∧ d.KeepsReleases p.accountId p.clientId d'
  reactivated : ∀ g ∈ d.base.connections, g.key = p.connection → g.active = false →
    { g with grantVersion := g.grantVersion + 1, active := true } ∈ d'.base.connections ∧ ¬d'.Released p.accountId p.clientId

/-- A sign-in to a client keeps consent exactly where nothing is released over an active connection. -/
theorem sign_in_consent (b : ConsentBatch) (d d' : ConsentDb) (hclient : b.signIn.ownerLogin = 0) (hrun : b.run d = some d') :
    KeepsConsent b.signIn d d' ↔
      ((∃ g ∈ d.base.connections, g.key = b.signIn.connection ∧ g.active = true) →
        ¬d.Released b.signIn.accountId b.signIn.clientId) := by
  obtain ⟨base, hbase, he⟩ := ConsentBatch.run_base hrun
  have hconnections : d'.base.connections = b.signIn.connect d.base.connections := by
    rw [he]
    exact SignIn.run_connections hbase
  have hstops : ∀ g ∈ d.base.connections, g.key = b.signIn.connection → ¬d'.Released b.signIn.accountId b.signIn.clientId :=
    fun g hg hk => ConsentBatch.run_stops hrun ⟨hclient, g, hg, hk⟩
  constructor
  · intro h hactive hreleased
    obtain ⟨g, hg, hk, ha⟩ := hactive
    obtain ⟨-, hvault, hidentity⟩ := h.repeated g hg hk ha
    rcases hreleased with ⟨r, hr, hof⟩ | ⟨r, hr, hof⟩
    · exact hstops g hg hk (.inl ⟨r, hvault r hr hof, hof⟩)
    · exact hstops g hg hk (.inr ⟨r, hidentity r hr hof, hof⟩)
  · intro h
    constructor
    · intro g hg hk ha
      have hmem := SignIn.connect_mem hclient hg hk
      rw [ha, if_neg (by decide), ← ha] at hmem
      refine ⟨hconnections ▸ hmem, fun r hr hof => ?_, fun r hr hof => ?_⟩
      · exact absurd (.inl ⟨r, hr, hof⟩) (h ⟨g, hg, hk, ha⟩)
      · exact absurd (.inr ⟨r, hr, hof⟩) (h ⟨g, hg, hk, ha⟩)
    · intro g hg hk ha
      have hmem := SignIn.connect_mem hclient hg hk
      rw [if_pos ha] at hmem
      exact ⟨hconnections ▸ hmem, hstops g hg hk⟩

namespace Repeated

/-- The owner signs in to a client again. -/
def signIn : SignIn :=
  { ownerLogin := 0, txId := "transaction", browserHash := "browser", clientId := "rp", now := 100, counter := 1, backupState := false
    credentialId := "passkey", revision := 1, accountId := "owner", epoch := 1, ssoId := "session", secretHash := "secret"
    expiresAt := 3700 }

def batch : ConsentBatch := ⟨signIn, some ⟨"https://rp.example/callback", "openid"⟩⟩

def release : IdentityReleaseRow := ⟨"owner", "rp", "document", 1, 1, 3, ["name"], 4000, 1, true⟩

def db (identityReleases : List IdentityReleaseRow) : ConsentDb :=
  { base :=
      { logins := [⟨0, "transaction", "browser", "https://op.example/authorize", "rp", "challenge", 200, false, 0, some "openid", false⟩]
        passkeys := [⟨"passkey", "key", "user", 0, false, false, 1⟩], credentials := [⟨"passkey", "owner", true⟩]
        accounts := [⟨"owner", 1, true⟩], sessions := [], contexts := [], connections := [⟨"owner", "rp", 3, true⟩], unixepoch := 100 }
    clients := [⟨"rp", 1, true⟩], redirects := [⟨"rp", "https://rp.example/callback", true⟩]
    loginRevisions := [("transaction", 1)], reviews := [], vaultReleases := [], identityReleases }

theorem runs (identityReleases : List IdentityReleaseRow) : ∃ d', batch.run (db identityReleases) = some d' :=
  Option.isSome_iff_exists.mp rfl

end Repeated

/-- Where nothing is released yet, a repeated sign-in keeps it so. -/
theorem sign_in_consent_unreleased : ∃ d', Repeated.batch.run (Repeated.db []) = some d' ∧ KeepsConsent Repeated.signIn (Repeated.db []) d' := by
  obtain ⟨d', hrun⟩ := Repeated.runs []
  refine ⟨d', hrun, (sign_in_consent Repeated.batch _ d' rfl hrun).mpr fun _ hr => ?_⟩
  rcases hr with ⟨r, hr, -⟩ | ⟨r, hr, -⟩ <;> cases hr

/-- A repeated sign-in over an active connection stops what was released over it. -/
theorem sign_in_consent_lost :
    ¬∀ (b : ConsentBatch) (d d' : ConsentDb), b.signIn.ownerLogin = 0 → b.run d = some d' → KeepsConsent b.signIn d d' := by
  intro h
  obtain ⟨d', hrun⟩ := Repeated.runs [Repeated.release]
  have hkept := h Repeated.batch _ d' rfl hrun
  have hg : (⟨"owner", "rp", 3, true⟩ : ConnectionRow) ∈ (Repeated.db [Repeated.release]).base.connections := List.mem_singleton_self _
  obtain ⟨-, -, hidentity⟩ := hkept.repeated _ hg rfl rfl
  have hr := hidentity Repeated.release (List.mem_singleton_self _) ⟨rfl, rfl, rfl⟩
  exact ConsentBatch.run_stops hrun ⟨rfl, _, hg, rfl⟩ (.inr ⟨_, hr, rfl, rfl, rfl⟩)

end Mikaki.Webauthn.Login
