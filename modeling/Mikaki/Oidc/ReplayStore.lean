import Mikaki.Lib.Calls
import Mikaki.Lib.Replay
import Mikaki.Lib.Rows
import Mikaki.Oidc.ClientAssertion

/-!
# The stores of accepted proofs and assertions

Each acceptance is one batch: a row that must be new, under checks against the
clock of the database. Sweeps remove rows whose time is over. The other tables
that the batches read are changed by anyone at any time.
-/

namespace Mikaki.Oidc

open Checks

inductive NonceScope where
  | authorizationServer
  | resourceServer
  deriving DecidableEq

structure ProofUse where
  jkt : String
  jtiHash : String
  acceptedBy : String
  retainUntil : Nat
  deriving DecidableEq

structure AssertionUse where
  clientId : String
  jti : String
  endpoint : String
  acceptedBy : String
  retainUntil : Nat
  deriving DecidableEq

structure NonceRow where
  scope : NonceScope
  nonce : String
  acceptUntil : Nat
  deriving DecidableEq

structure TokenIssue where
  accessHash : String
  codeHash : String
  dpopJkt : Option String
  revoked : Bool
  accessExpiresAt : Nat
  deriving DecidableEq

structure AuthorizationCode where
  codeHash : String
  clientId : String
  sid : String
  deriving DecidableEq

/-- A row of the view of valid client sessions. -/
structure ValidSession where
  clientId : String
  sid : String
  sub : String
  deriving DecidableEq

structure ClientRow where
  clientId : String
  active : Bool
  revision : Nat
  authMethod : String
  deriving DecidableEq

structure ClientKeyRow where
  clientId : String
  kid : String
  revision : Nat
  active : Bool
  deriving DecidableEq

structure ClientAuthUse where
  acceptedBy : String
  clientId : String
  method : String
  endpoint : String
  credentialId : String
  clientRevision : Nat
  credentialRevision : Nat
  retainUntil : Nat
  deriving DecidableEq

/-- What the batches read, and the receipts that other requests write as well. -/
structure Tables where
  nonces : List NonceRow
  tokenIssues : List TokenIssue
  authorizationCodes : List AuthorizationCode
  validSessions : List ValidSession
  clients : List ClientRow
  clientKeys : List ClientKeyRow
  clientAuthUses : List ClientAuthUse
  deriving DecidableEq

structure Db where
  proofUses : List ProofUse
  assertionUses : List AssertionUse
  tables : Tables
  clock : Nat
  deriving DecidableEq

def ProofUse.key (row : ProofUse) : String × String := (row.jkt, row.jtiHash)

def ProofUse.checked (row : ProofUse) : Prop :=
  row.jkt.length = 43 ∧ row.jtiHash.length = 43 ∧ row.acceptedBy.length = 43 ∧ 0 < row.retainUntil

instance : DecidablePred ProofUse.checked := fun _ => inferInstanceAs (Decidable (_ ∧ _))

def AssertionUse.key (row : AssertionUse) : String × String := (row.clientId, row.jti)

def within (n m : Nat) (s : String) : Prop := n ≤ s.length ∧ s.length ≤ m

instance (n m : Nat) : DecidablePred (within n m) := fun _ => inferInstanceAs (Decidable (_ ∧ _))

def AssertionUse.checked (row : AssertionUse) : Prop :=
  within 1 256 row.jti ∧ within 1 2048 row.endpoint ∧ within 1 128 row.acceptedBy ∧ 0 < row.retainUntil

instance : DecidablePred AssertionUse.checked := fun _ => inferInstanceAs (Decidable (_ ∧ _))

def ClientAuthUse.checked (row : ClientAuthUse) : Prop :=
  within 1 128 row.acceptedBy ∧ row.method ∈ ["private_key_jwt", "client_secret_basic", "client_secret_post", "none"] ∧
    within 1 2048 row.endpoint ∧ within 0 128 row.credentialId ∧ 0 < row.retainUntil ∧
    (row.method = "none" → row.credentialId = "" ∧ row.credentialRevision = 0)

instance : DecidablePred ClientAuthUse.checked := fun _ => inferInstanceAs (Decidable (_ ∧ _))

namespace Db

/-! ## Proofs -/

def cleanup (d : Db) : Db := { d with proofUses := Replay.sweep ProofUse.retainUntil 1000 d.clock d.proofUses }

def acceptsNonce (d : Db) (scope : NonceScope) (nonce : Option String) : Bool :=
  d.tables.nonces.any fun row => row.scope = scope ∧ some row.nonce = nonce ∧ d.clock < row.acceptUntil

/-- The insert that accepts a proof, under `condition`; whether it has added a row. -/
def insertProof (d : Db) (proof : VerifiedDpopProof) (operation : String) (condition : Bool) : Option (Bool × Db) :=
  let row := { jkt := proof.thumbprint, jtiHash := proof.jtiHash, acceptedBy := operation, retainUntil := proof.retainUntil.toNat }
  if proof.issuedAt.toNat ≤ d.clock + 10 ∧ d.clock ≤ proof.retainUntil.toNat ∧ d.proofUses.length < 10000 ∧ condition = true ∧
      ∀ used ∈ d.proofUses, used.key ≠ row.key then
    (Rows.insert ProofUse.acceptedBy ProofUse.checked row d.proofUses).map fun proofUses => (true, { d with proofUses })
  else some (false, d)

def acceptIdentityProof (d : Db) (proof : VerifiedDpopProof) (operation : String) (requireNonce : Bool) (scope : NonceScope) :
    Except String Unit × Db :=
  match d.cleanup.insertProof proof operation (!requireNonce || d.acceptsNonce scope proof.nonce) with
  | none => (.error "server_error", d)
  | some (true, d) => (.ok (), d)
  | some (false, d) => (.error "invalid_dpop_proof", d)

/-- The subjects behind a live token of the key. -/
def subjects (d : Db) (tokenHash jkt : String) : List String :=
  (d.tables.tokenIssues.filter fun ti =>
    ti.accessHash = tokenHash ∧ ti.dpopJkt = some jkt ∧ ti.revoked = false ∧ d.clock < ti.accessExpiresAt).flatMap fun ti =>
      (d.tables.authorizationCodes.filter fun ac => ac.codeHash = ti.codeHash).flatMap fun ac =>
        (d.tables.validSessions.filter fun v => v.clientId = ac.clientId ∧ v.sid = ac.sid).map ValidSession.sub

def authorizeResource (d : Db) (proof : VerifiedDpopProof) (operation tokenHash : String) (requireNonce : Bool) :
    Except String (Option String) × Db :=
  let live := !(d.subjects tokenHash proof.thumbprint).isEmpty
  match d.cleanup.insertProof proof operation (live && (!requireNonce || d.acceptsNonce .resourceServer proof.nonce)) with
  | none => (.error "server_error", d)
  | some (_, d) =>
    let accepted := d.proofUses.any fun p =>
      p.key = (proof.thumbprint, proof.jtiHash) ∧ p.acceptedBy = operation ∧ d.clock ≤ p.retainUntil
    (.ok (if accepted = true then (d.subjects tokenHash proof.thumbprint).head? else none), d)

/-! ## Assertions -/

/-- The client and its key are as the assertion was verified with. -/
def registered (d : Db) (assertion : VerifiedClientAssertion) (method : String → Bool) : Bool :=
  (d.tables.clients.any fun c => c.clientId = assertion.clientId ∧ c.active = true ∧ method c.authMethod = true ∧
    c.revision = assertion.clientRevision.toNat) &&
  d.tables.clientKeys.any fun k => k.clientId = assertion.clientId ∧ k.kid = assertion.keyId ∧
    k.revision = assertion.keyRevision.toNat ∧ k.active = true

def insertAssertion (d : Db) (assertion : VerifiedClientAssertion) (endpoint operation : String) : Option Db :=
  if d.registered assertion (fun _ => true) = true ∧ d.clock < assertion.retainUntil.toNat then
    let row := { clientId := assertion.clientId, jti := assertion.jti, endpoint, acceptedBy := operation
                 retainUntil := assertion.retainUntil.toNat }
    if ∃ used ∈ d.assertionUses, used.acceptedBy = operation then none
    else (Rows.insert AssertionUse.key AssertionUse.checked row d.assertionUses).map fun assertionUses =>
      { d with assertionUses }
  else some d

def insertReceipt (d : Db) (assertion : VerifiedClientAssertion) (endpoint operation : String) : Option Db :=
  if d.registered assertion (· == "private_key_jwt") = true then
    let row := { acceptedBy := operation, clientId := assertion.clientId, method := "private_key_jwt", endpoint
                 credentialId := assertion.keyId, clientRevision := assertion.clientRevision.toNat
                 credentialRevision := assertion.keyRevision.toNat, retainUntil := assertion.retainUntil.toNat }
    (Rows.insert ClientAuthUse.acceptedBy ClientAuthUse.checked row d.tables.clientAuthUses).map fun clientAuthUses =>
      { d with tables := { d.tables with clientAuthUses } }
  else some d

/-- The batch; its guard fails unless both rows are there. -/
def assertionBatch (d : Db) (assertion : VerifiedClientAssertion) (endpoint operation : String) : Option Db := do
  let d ← d.insertAssertion assertion endpoint operation
  let d ← d.insertReceipt assertion endpoint operation
  Rows.require (∃ a ∈ d.assertionUses, a.acceptedBy = operation ∧ a.clientId = assertion.clientId ∧ a.jti = assertion.jti ∧
    a.endpoint = endpoint ∧ ∃ u ∈ d.tables.clientAuthUses, u.acceptedBy = operation)
  return d

def acceptClientAssertion (d : Db) (assertion : VerifiedClientAssertion) (audience endpoint operation : String) :
    Except String Unit × Db :=
  if endpoint = "" ∨ assertion.audience ≠ audience then (.error "client assertion endpoint mismatch", d)
  else if assertion.retainUntil.toNat > largest ∨ assertion.clientRevision.toNat > largest ∨
      assertion.keyRevision.toNat > largest then
    (.error "client assertion revision or expiry is out of range", d)
  else
    match d.assertionBatch assertion endpoint operation with
    | none => (.error "server_error", d)
    | some d => (.ok (), d)

/-! ## Sweeps -/

/-- The statements of the retention job for these tables. -/
def retain (d : Db) : Db :=
  { d with
    proofUses := Replay.sweep ProofUse.retainUntil 1000 d.clock d.proofUses
    assertionUses := Replay.sweep AssertionUse.retainUntil 1000 d.clock d.assertionUses
    tables := { d.tables with
      clientAuthUses := Replay.sweep ClientAuthUse.retainUntil 1000 d.clock d.tables.clientAuthUses } }

end Db

/-! ## Requests in any order -/

structure Deployment where
  issuer : String
  fapi : Bool
  assertion : ClientAssertionPolicy
  jwtBytes : Nat
  deriving DecidableEq

/-- A deployment of FAPI verifies for its issuer under FAPI; the session check has an audience of its own. -/
def Deployment.fapiFor (self : Deployment) (audience : String) : Bool := self.fapi && audience == self.issuer

section
variable [AssertionFormats]

/-- The verification in `verify_and_accept_client_assertion`. -/
def Deployment.verify (self : Deployment) (key : ClientAssertionKey) (compact audience : String) (now : UInt64) :
    Except InvalidClientAssertion VerifiedClientAssertion :=
  if self.fapiFor audience = true then key.verifyFapiPrivateKeyJwt compact audience now self.jwtBytes
  else key.verifyPrivateKeyJwt compact audience now self.assertion self.jwtBytes

/-- A request verifies at its own clock and with what it has read before; the operation is drawn for it. Anyone else may
change the other tables, and the clock goes on. -/
inductive Call where
  | identityProof (compact method requestUri : String) (target : DpopTarget) (now : UInt64) (operation : String)
      (requireNonce : Bool) (scope : NonceScope)
  | resourceProof (compact method requestUri : String) (target : DpopTarget) (now : UInt64) (operation tokenHash : String)
      (requireNonce : Bool)
  | assertion (key : ClientAssertionKey) (compact audience : String) (now : UInt64) (endpoint operation : String)
  | cleanup
  | retain
  | other (tables : Tables) (clock : Nat)
  deriving DecidableEq

/-- Whether the token of the request was accepted. -/
def step (deployment : Deployment) (call : Call) (d : Db) : Bool × Db :=
  match call with
  | .identityProof compact method requestUri target now operation requireNonce scope =>
    match verifyDpopProof compact method requestUri target now with
    | .error _ => (false, d)
    | .ok proof => ((d.acceptIdentityProof proof operation requireNonce scope).1.isOk,
        (d.acceptIdentityProof proof operation requireNonce scope).2)
  | .resourceProof compact method requestUri target now operation tokenHash requireNonce =>
    match verifyDpopProof compact method requestUri target now with
    | .error _ => (false, d)
    | .ok proof =>
      ((match (d.authorizeResource proof operation tokenHash requireNonce).1 with
        | .ok subject => subject.isSome
        | .error _ => false), (d.authorizeResource proof operation tokenHash requireNonce).2)
  | .assertion key compact audience now endpoint operation =>
    match deployment.verify key compact audience now with
    | .error _ => (false, d)
    | .ok assertion => ((d.acceptClientAssertion assertion audience endpoint operation).1.isOk,
        (d.acceptClientAssertion assertion audience endpoint operation).2)
  | .cleanup => (false, d.cleanup)
  | .retain => (false, d.retain)
  | .other tables clock => (false, { d with tables, clock := max d.clock clock })

end

end Mikaki.Oidc
