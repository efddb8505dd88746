import Mikaki.Lib.Calls
import Mikaki.Lib.Checks
import Mikaki.Lib.Json
import Mikaki.Lib.Sha
import Mikaki.Lib.Words
import Mikaki.Vault.Http

/-!
# The authorization of a wallet

One transaction goes from the pushed request over the browser, the code and
the token to its end; on the way it binds, stages and receives holder keys.
URLs, base64url, points of the curve and key attestations are parameters.
-/

namespace Mikaki.Identity.Wallet

open Checks Words
open Mikaki.Vault (Base64 encode64 decode64)

structure PublicJwk where
  kty : String
  crv : String
  x : String
  y : String
  deriving DecidableEq

/-- A parsed URL; two are equal where their texts are. -/
structure Url where
  scheme : String
  username : String
  password : Option String
  host : Option String
  port : Option Nat
  path : String
  query : Option String
  fragment : Option String
  deriving DecidableEq

/-- What a key attestation has proved. -/
structure Verified where
  holder : PublicJwk
  expiresAt : UInt64
  deriving DecidableEq

class Formats (Trust : outParam Type) extends Base64 where
  parse : String → Option Url
  asStr : Url → String
  /-- The decoded pairs of a query. -/
  queryPairs : String → List (String × String)
  appendPair : Url → String → String → Url
  onCurve : List UInt8 → Bool
  verify : String → String → Trust → UInt64 → Except String Verified

export Formats (parse asStr appendPair)

structure Signer where
  publicKey : Except String PublicJwk
  sign : Json.Value → Json.Value → Except String String

/-! ## Budgets -/

inductive Mode where
  | sequential
  | batch
  deriving DecidableEq

structure Budget where
  size : Nat
  claimsJson : String
  mode : Mode
  deriving DecidableEq

inductive Claim where
  | name
  | address
  | birthdate
  | gender
  | documentExpiryDate
  | ageOver18
  | ageOver20
  deriving DecidableEq

def Claim.all : List Claim := [.name, .address, .birthdate, .gender, .documentExpiryDate, .ageOver18, .ageOver20]

def Claim.text : Claim → String
  | .name => "name"
  | .address => "address"
  | .birthdate => "birthdate"
  | .gender => "gender"
  | .documentExpiryDate => "document_expiry_date"
  | .ageOver18 => "age_over_18"
  | .ageOver20 => "age_over_20"

def Claim.read (value : Json.Value) : Option Claim := do
  let text ← value.asStr
  Claim.all.find? fun claim => claim.text = text

def maxSize : Nat := 8

/-- `ClaimProfile::from_json`. -/
def claimProfile (raw : String) : Except String (List Claim) := do
  denyIf (raw.utf8ByteSize > 512) "invalid_claim_profile"
  match (Json.parse raw).bind fun value => value.asArr Claim.read with
  | none => throw "invalid_claim_profile"
  | some claims =>
    denyIf (claims = [] ∨ claims.length > 7 ∨ ¬claims.Nodup) "invalid_claim_profile"
    return claims

def toJson (claims : List Claim) : String := (Json.Value.arr (claims.map fun claim => .str claim.text)).render

def Budget.validate (self : Budget) : Except String (List Claim) := do
  let profile ← claimProfile self.claimsJson
  denyIf (¬(2 ≤ self.size ∧ self.size ≤ maxSize) ∨ (profile.all fun claim => claim = .ageOver18 ∨ claim = .ageOver20) = false ∨
    toJson profile ≠ self.claimsJson) "invalid_age_pool"
  return profile

/-! ## The transaction -/

inductive Phase where
  | par
  | browser (until_ : UInt64)
  | code (code : String)
  | token (access : String) (until_ : UInt64)
  | closed
  deriving DecidableEq

def Phase.isCode : Phase → Bool
  | .code _ => true
  | _ => false

/-- There is an access token that has not expired. -/
def Phase.tokenAt (now : UInt64) : Phase → Bool
  | .token _ until_ => now < until_
  | _ => false

structure Staged where
  holder : PublicJwk
  nonce : String
  proof : String
  until_ : UInt64
  deriving DecidableEq

structure Authorization where
  issuer : Url
  client : String
  callback : Url
  configuration : String
  issuerState : Option String
  state : String
  verifier : String
  inst : PublicJwk
  dpop : PublicJwk
  holder : Option PublicJwk
  agePool : Option Budget
  receivedHolders : List String
  staged : List Staged
  until_ : UInt64
  phase : Phase
  deriving DecidableEq

/-- `ok_or(..)?`. -/
def orElse {α : Type} (error : String) : Option α → Except String α
  | some a => .ok a
  | none => .error error

theorem orElse_eq_ok {α : Type} {error : String} {o : Option α} {a : α} : orElse error o = .ok a ↔ o = some a := by
  cases o with
  | none => exact ⟨(fun h => by cases h), fun h => by cases h⟩
  | some b => exact ⟨fun h => by cases h; rfl, fun h => by cases h; rfl⟩

def isOpaque (s : String) : Bool :=
  s.utf8ByteSize == 43 && (Text.bytes s).all fun b => Text.isAlphanumeric b || b == 45 || b == 95

/-- Indexing an object by a key that it does not have gives `null`. -/
def index (body : Json.Value) (key : String) : Json.Value :=
  match body with
  | .obj ms => (ms.lookup key).getD .null
  | _ => .null

def elementAt (body : Json.Value) (n : Nat) : Json.Value :=
  match body with
  | .arr xs => xs[n]?.getD .null
  | _ => .null

def isMember (body : Json.Value) (key : String) : Bool :=
  match body with
  | .obj ms => (ms.lookup key).isSome
  | _ => false

/-- A number that is no `u64` has no value here, as any value that is no number. -/
def asU64 (value : Json.Value) : Option UInt64 := (value.asNum (2 ^ 64)).map UInt64.ofNat

def lowerAscii (s : String) : List UInt8 := (Text.bytes s).map fun b => if Text.isUpper b then b + 32 else b

def remove (name : String) (pairs : List (String × String)) : List (String × String) := pairs.filter (·.1 ≠ name)

/-- Take the pairs of the registered callback out of the pairs that came back. -/
def removeFixed : List (String × String) → List (String × String) → Option (List (String × String))
  | [], pairs => some pairs
  | (name, value) :: fixed, pairs =>
    if pairs.lookup name = some value then removeFixed fixed (remove name pairs) else none

def stripPrefix (start s : String) : Option String :=
  if start.toList <+: s.toList then some (String.ofList (s.toList.drop start.toList.length)) else none

/-- What an accepted callback says: a code, or that the request was denied. -/
inductive Callback where
  | code (code : String)
  | denied
  deriving DecidableEq

section
variable {Trust : Type} [Formats Trust]

def PublicJwk.verifyingKey (self : PublicJwk) : Except String (List UInt8) := do
  denyIf (self.kty ≠ "EC" ∨ self.crv ≠ "P-256") "invalid_key"
  let x ← orElse "invalid_key" (decode64 self.x)
  let y ← orElse "invalid_key" (decode64 self.y)
  denyIf (x.length ≠ 32 ∨ y.length ≠ 32 ∨ encode64 x ≠ self.x ∨ encode64 y ≠ self.y) "invalid_key"
  denyIf (Formats.onCurve (4 :: x ++ y) = false) "invalid_key"
  return 4 :: x ++ y

def PublicJwk.thumbprint (self : PublicJwk) : Except String String := do
  let _ ← self.verifyingKey
  return encode64 (Sha.sha256 (Text.bytes
    ("\x7b\"crv\":\"P-256\",\"kty\":\"EC\",\"x\":\"" ++ self.x ++ "\",\"y\":\"" ++ self.y ++ "\"\x7d")))

def PublicJwk.json (self : PublicJwk) : Json.Value :=
  .obj [("crv", .str self.crv), ("kty", .str self.kty), ("x", .str self.x), ("y", .str self.y)]

def pairsOf (url : Url) : List (String × String) := (url.query.map Formats.queryPairs).getD []

def https (s : String) : Except String Url := do
  let u ← orElse "wallet_configuration_invalid" (parse s)
  denyIf (s.utf8ByteSize > 2048 ∨ asStr u ≠ s ∨ u.scheme ≠ "https" ∨ u.host = none ∨ u.username ≠ "" ∨ u.password ≠ none ∨
    u.fragment ≠ none) "wallet_configuration_invalid"
  return u

namespace Authorization

def newInner (issuer client callback configuration : String) (stateEntropy verifierEntropy : List UInt8)
    (inst dpop : PublicJwk) (holder : Option PublicJwk) (now : UInt64) : Except String Authorization := do
  let issuer ← https issuer
  let callback ← https callback
  denyIf (issuer.query ≠ none ∨ issuer.path.toList.getLast? = some '/' ∨ client = "" ∨ client.utf8ByteSize > 256 ∨
    configuration ∉ ["linked_document", "linked_document_mdoc", "passport_dg1"] ∨ stateEntropy = verifierEntropy ∨
    inst = dpop ∨ (holder.any fun h => h = inst ∨ h = dpop) = true) "wallet_configuration_invalid"
  checkAll (inst :: dpop :: holder.toList) fun key => key.verifyingKey >>= fun _ => .ok ()
  denyIf ((callback.query.any fun q => q = "" ∨ q.utf8ByteSize > 1024) = true) "wallet_configuration_invalid"
  let names := (pairsOf callback).map Prod.fst
  denyIf ("" ∈ names ∨ ¬names.Nodup ∨ names.length > 16) "wallet_configuration_invalid"
  denyIf ((names.any fun name => name ∈ ["code", "state", "iss", "error", "error_description", "error_uri"]) = true)
    "wallet_configuration_invalid"
  return {
    issuer, client, callback, configuration, issuerState := none, state := encode64 stateEntropy
    verifier := encode64 verifierEntropy, inst, dpop, holder, agePool := none, receivedHolders := [], staged := []
    until_ := saturatingAdd now 180, phase := .par }

def new (issuer client callback configuration : String) (stateEntropy verifierEntropy : List UInt8)
    (inst dpop holder : PublicJwk) (now : UInt64) : Except String Authorization :=
  newInner issuer client callback configuration stateEntropy verifierEntropy inst dpop (some holder) now

def newPendingHolder (issuer client callback configuration : String) (stateEntropy verifierEntropy : List UInt8)
    (inst dpop : PublicJwk) (now : UInt64) : Except String Authorization :=
  newInner issuer client callback configuration stateEntropy verifierEntropy inst dpop none now

def live (self : Authorization) (now : UInt64) : Except String Unit :=
  denyIf (self.until_ ≤ now ∨ self.phase = .closed) "wallet_transaction_unavailable"

def cancel (self : Authorization) : Authorization :=
  { self with phase := .closed, state := "", verifier := "", staged := [], issuerState := none }

def isBatch (self : Authorization) : Bool := self.agePool.any fun budget => budget.mode = .batch

/-- The size of the pool, or one key. -/
def size (self : Authorization) : Nat := (self.agePool.map Budget.size).getD 1

def requestAgePool (self : Authorization) (budget : Budget) (now : UInt64) : Except String Authorization := do
  self.live now
  denyIf (self.configuration = "passport_dg1" ∨ self.phase ≠ .par ∨ self.holder.isSome = true ∨ self.agePool.isSome = true)
    "wallet_transaction_unavailable"
  let _ ← budget.validate
  return { self with agePool := some budget }

def bindIssuerState (self : Authorization) (issuerState : String) (now : UInt64) : Except String Authorization := do
  self.live now
  denyIf (self.configuration ≠ "passport_dg1" ∨ isOpaque issuerState = false ∨ self.issuerState.isSome = true ∨
    self.phase ≠ .par) "wallet_transaction_unavailable"
  return { self with issuerState := some issuerState }

def acceptPar (self : Authorization) (body : Json.Value) (now : UInt64) : Except String (Url × Authorization) := do
  self.live now
  denyIf (self.phase ≠ .par) "wallet_transaction_unavailable"
  let uri ← orElse "invalid_par_response" (index body "request_uri").asStr
  let lifetime ← orElse "invalid_par_response" ((asU64 (index body "expires_in")).filter fun n => 1 ≤ n ∧ n ≤ 90)
  denyIf ((stripPrefix "urn:ietf:params:oauth:request_uri:" uri).any isOpaque = false) "invalid_par_response"
  let target ← orElse "wallet_configuration_invalid" (parse (asStr self.issuer ++ "/authorize"))
  return (appendPair (appendPair target "client_id" self.client) "request_uri" uri,
    { self with phase := .browser (min self.until_ (saturatingAdd now lifetime)) })

/-- The part of `accept_callback` that reads the URL. -/
def readCallback (self : Authorization) (input : String) : Except String Callback := do
  denyIf (input.utf8ByteSize > 4096) "invalid_wallet_callback"
  let callback ← orElse "invalid_wallet_callback" (parse input)
  denyIf ({ callback with query := self.callback.query } ≠ self.callback ∨ callback.fragment ≠ none ∨ asStr callback ≠ input)
    "invalid_wallet_callback"
  let pairs := pairsOf callback
  denyIf (¬(pairs.map Prod.fst).Nodup ∨ pairs.length > 24) "invalid_wallet_callback"
  let pairs ← orElse "invalid_wallet_callback" (removeFixed (pairsOf self.callback) pairs)
  denyIf (pairs.lookup "state" ≠ some self.state ∨ (remove "state" pairs).lookup "iss" ≠ some (asStr self.issuer))
    "invalid_wallet_callback"
  match pairs.lookup "code", pairs.lookup "error" with
  | none, some error =>
    denyIf (error = "" ∨ error.utf8ByteSize > 128) "invalid_wallet_callback"
    return .denied
  | some code, none =>
    denyIf (isOpaque code = false) "invalid_wallet_callback"
    return .code code
  | _, _ => throw "invalid_wallet_callback"

/-- Invalid and unrelated callbacks leave the transaction pending; a denial and a late callback close it. -/
def acceptCallback (self : Authorization) (input : String) (now : UInt64) : Except String Bool × Authorization :=
  match self.live now with
  | .error error => (.error error, self)
  | .ok () =>
    match self.phase with
    | .browser until_ =>
      if until_ ≤ now then (.error "wallet_transaction_unavailable", self.cancel)
      else
        match self.readCallback input with
        | .error error => (.error error, self)
        | .ok .denied => (.ok false, self.cancel)
        | .ok (.code code) => (.ok true, { self with phase := .code code })
    | _ => (.error "wallet_transaction_unavailable", self)

def tokenParameters (self : Authorization) (now : UInt64) : Except String Json.Value := do
  self.live now
  match self.phase with
  | .code code => return .obj [("grant_type", .str "authorization_code"), ("client_id", .str self.client),
      ("redirect_uri", .str (asStr self.callback)), ("code", .str code), ("code_verifier", .str self.verifier)]
  | _ => throw "wallet_transaction_unavailable"

def acceptToken (self : Authorization) (body : Json.Value) (now : UInt64) : Except String Authorization := do
  self.live now
  denyIf (self.phase.isCode = false) "wallet_transaction_unavailable"
  let access ← orElse "invalid_token_response" ((index body "access_token").asStr.filter fun s => isOpaque s)
  let lifetime ← orElse "invalid_token_response" ((asU64 (index body "expires_in")).filter fun n => 1 ≤ n ∧ n ≤ 120)
  denyIf ((index body "token_type").asStr.map lowerAscii ≠ some (lowerAscii "DPoP") ∨
    (index body "scope").asStr ≠ some self.configuration ∨ isMember body "refresh_token" = true) "invalid_token_response"
  return { self with phase := .token access (min self.until_ (saturatingAdd now lifetime)), state := "", verifier := "" }

def authorizationHeader (self : Authorization) (now : UInt64) : Except String String := do
  self.live now
  match self.phase with
  | .token access until_ => if now < until_ then return "DPoP " ++ access else throw "wallet_transaction_unavailable"
  | _ => throw "wallet_transaction_unavailable"

/-! ### Holder keys -/

def finishReceipt (self : Authorization) (holder : PublicJwk) (now : UInt64) : Except String Authorization := do
  self.live now
  denyIf (self.isBatch = true ∨ self.phase.tokenAt now = false ∨ self.holder ≠ some holder) "wallet_transaction_unavailable"
  let thumbprint ← holder.thumbprint
  denyIf (thumbprint ∈ self.receivedHolders) "invalid_proof"
  let self := { self with receivedHolders := self.receivedHolders ++ [thumbprint], holder := none }
  return if self.receivedHolders.length = self.size then self.cancel else self

def holderBindingAvailable (self : Authorization) (now : UInt64) : Except String Unit := do
  self.live now
  denyIf (self.isBatch = true ∧ self.size ≤ self.staged.length) "wallet_transaction_unavailable"
  denyIf (¬(self.phase.tokenAt now = true ∧ self.holder = none)) "wallet_transaction_unavailable"

def bindHolder (self : Authorization) (holder : PublicJwk) (now : UInt64) : Except String Authorization := do
  self.holderBindingAvailable now
  let _ ← holder.verifyingKey
  denyIf (holder = self.inst ∨ holder = self.dpop ∨ (self.staged.any fun s => s.holder = holder) = true)
    "wallet_configuration_invalid"
  let thumbprint ← holder.thumbprint
  denyIf (thumbprint ∈ self.receivedHolders) "wallet_configuration_invalid"
  return { self with holder := some holder }

def credentialRequest (self : Authorization) (nonce attestation : String) (trust : Trust) (signer : Signer) (now : UInt64) :
    Except String Json.Value := do
  self.live now
  match self.phase with
  | .token _ until_ =>
    let holder ← orElse "wallet_transaction_unavailable" self.holder
    denyIf (until_ ≤ now) "wallet_transaction_unavailable"
    let publicKey ← signer.publicKey
    denyIf (publicKey ≠ holder) "wallet_transaction_unavailable"
    let verified ← Formats.verify attestation nonce trust now
    denyIf (verified.holder ≠ holder) "invalid_proof"
    let header := Json.Value.obj [("alg", .str "ES256"), ("jwk", holder.json), ("key_attestation", .str attestation),
      ("typ", .str "openid4vci-proof+jwt")]
    let claims := Json.Value.obj [("aud", .str (asStr self.issuer)), ("iat", .num now.toNat), ("iss", .str self.client),
      ("nonce", .str nonce)]
    denyIf ((encode64 (Text.bytes header.render)).utf8ByteSize + 1 + (encode64 (Text.bytes claims.render)).utf8ByteSize > 16384)
      "invalid_proof"
    let proof ← signer.sign header claims
    return .obj [("credential_configuration_id", .str self.configuration), ("proofs", .obj [("jwt", .arr [.str proof])])]
  | _ => throw "wallet_transaction_unavailable"

/-- The holder key is taken before the proof is read off the payload. -/
def stageCredentialProof (self : Authorization) (nonce attestation : String) (trust : Trust) (signer : Signer) (now : UInt64) :
    Except String Unit × Authorization :=
  if self.isBatch = false ∨ self.size ≤ self.staged.length ∨ (self.staged.head?.any fun s => s.nonce ≠ nonce) = true then
    (.error "invalid_age_pool", self)
  else
    let checked : Except String (Json.Value × Verified) := do
      let payload ← self.credentialRequest nonce attestation trust signer now
      let verified ← Formats.verify attestation nonce trust now
      return (payload, verified)
    match checked, self.holder with
    | .error error, _ => (.error error, self)
    | .ok _, none => (.error "wallet_transaction_unavailable", self)
    | .ok (payload, verified), some holder =>
      let taken := { self with holder := none }
      match (elementAt (index (index payload "proofs") "jwt") 0).asStr with
      | none => (.error "invalid_proof", taken)
      | some proof =>
        (.ok (), { taken with staged := taken.staged ++ [{ holder, nonce, proof, until_ := verified.expiresAt }] })

def batchCredentialRequest (self : Authorization) (now : UInt64) : Except String Json.Value := do
  let _ ← self.authorizationHeader now
  denyIf (self.isBatch = false ∨ self.holder.isSome = true ∨ self.staged.length ≠ self.size ∨
    (self.staged.any fun s => s.until_ ≤ now) = true) "wallet_transaction_unavailable"
  return .obj [("credential_configuration_id", .str self.configuration),
    ("proofs", .obj [("jwt", .arr (self.staged.map fun s => .str s.proof))])]

def finishBatch (self : Authorization) (holders : List PublicJwk) (now : UInt64) : Except String Authorization := do
  let _ ← self.batchCredentialRequest now
  denyIf (holders.length ≠ self.staged.length ∨ ((holders.zip self.staged).any fun (h, s) => h ≠ s.holder) = true)
    "invalid_proof"
  return self.cancel

/-! ## Calls in any order -/

inductive Call (Trust : Type) where
  | requestAgePool (budget : Budget) (now : UInt64)
  | bindIssuerState (issuerState : String) (now : UInt64)
  | acceptPar (body : Json.Value) (now : UInt64)
  | acceptCallback (input : String) (now : UInt64)
  | tokenParameters (now : UInt64)
  | acceptToken (body : Json.Value) (now : UInt64)
  | authorizationHeader (now : UInt64)
  | holderBindingAvailable (now : UInt64)
  | bindHolder (holder : PublicJwk) (now : UInt64)
  | credentialRequest (nonce attestation : String) (trust : Trust) (signer : Signer) (now : UInt64)
  | stageCredentialProof (nonce attestation : String) (trust : Trust) (signer : Signer) (now : UInt64)
  | batchCredentialRequest (now : UInt64)
  | finishBatch (holders : List PublicJwk) (now : UInt64)
  | finishReceipt (holder : PublicJwk) (now : UInt64)
  | cancel

inductive Answer where
  | done
  | target (url : Url)
  | accepted (accepted : Bool)
  | json (value : Json.Value)
  | header (header : String)

/-- A failed update leaves the transaction as it was. -/
def updated (self : Authorization) (result : Except String Authorization) : Except String Answer × Authorization :=
  match result with
  | .ok next => (.ok .done, next)
  | .error error => (.error error, self)

def step (call : Call Trust) (self : Authorization) : Except String Answer × Authorization :=
  match call with
  | .requestAgePool budget now => updated self (self.requestAgePool budget now)
  | .bindIssuerState issuerState now => updated self (self.bindIssuerState issuerState now)
  | .acceptPar body now =>
    match self.acceptPar body now with
    | .ok (target, next) => (.ok (.target target), next)
    | .error error => (.error error, self)
  | .acceptCallback input now => ((self.acceptCallback input now).1.map .accepted, (self.acceptCallback input now).2)
  | .tokenParameters now => ((self.tokenParameters now).map .json, self)
  | .acceptToken body now => updated self (self.acceptToken body now)
  | .authorizationHeader now => ((self.authorizationHeader now).map .header, self)
  | .holderBindingAvailable now => ((self.holderBindingAvailable now).map fun _ => .done, self)
  | .bindHolder holder now => updated self (self.bindHolder holder now)
  | .credentialRequest nonce attestation trust signer now =>
    ((self.credentialRequest nonce attestation trust signer now).map .json, self)
  | .stageCredentialProof nonce attestation trust signer now =>
    ((self.stageCredentialProof nonce attestation trust signer now).1.map fun _ => .done,
      (self.stageCredentialProof nonce attestation trust signer now).2)
  | .batchCredentialRequest now => ((self.batchCredentialRequest now).map .json, self)
  | .finishBatch holders now => updated self (self.finishBatch holders now)
  | .finishReceipt holder now => updated self (self.finishReceipt holder now)
  | .cancel => (.ok .done, self.cancel)

end Authorization

end

end Mikaki.Identity.Wallet
