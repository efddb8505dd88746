import Mikaki.Lib.Base64url
import Mikaki.Lib.Framing
import Mikaki.Lib.Sha
import Mikaki.Lib.Text
import Mikaki.Lib.Transactions

/-!
# Requests of an owner's browser

The guards that the vault's routes share: the origin, the revision a request
expects, the identity of an operation, and the session that stands behind a
cookie. Base64url and the reading of a JSON body are parameters.
-/

namespace Mikaki.Vault

open Concurrent Concurrent.Prog Transactions

inductive Failure where
  | response (status : Nat) (code : String)
  | server
  deriving DecidableEq

/-- A request as far as the routes read it; `clock` is what `now_seconds` returns, call after call. -/
structure Request where
  bucket : Bool
  origin : Option String
  url : String
  ifNoneMatch : Option String
  ifMatch : Option String
  operation : Option String
  cookie : Option String
  contentType : Option String
  /-- The bounded body, where it could be read. -/
  body : Option String
  clock : Nat → Option Nat

/-- Base64url without padding. -/
class Base64 where
  decode64 : String → Option (List UInt8)
  encode64 : List UInt8 → String

export Base64 (decode64 encode64)

/-- What the engine without padding does: letters of the URL-safe alphabet, and every text has its own bytes. -/
structure Base64.Standard [Base64] : Prop where
  decode_encode : ∀ bytes, decode64 (encode64 bytes) = some bytes
  encode_decode : ∀ {s bytes}, decode64 s = some bytes → encode64 bytes = s
  letters : ∀ bytes, ∀ c ∈ (encode64 bytes).toList, Base64url.urlSafe c = true
  length : ∀ bytes, (encode64 bytes).toList.length = (4 * bytes.length + 2) / 3

@[reducible] def Base64.url : Base64 := ⟨Base64url.decode, Base64url.encode⟩

theorem Base64.standard_url : @Base64.Standard Base64.url := by
  refine @Base64.Standard.mk Base64.url Base64url.decode_encode Base64url.encode_decode ?_ ?_
  · intro bytes c hc
    exact Base64url.urlSafe_chars bytes c (String.toList_ofList (l := Base64url.chars bytes) ▸ hc)
  · intro bytes
    show (String.ofList (Base64url.chars bytes)).toList.length = _
    rw [String.toList_ofList]
    exact Base64url.length_chars bytes

/-! ## Headers -/

namespace Request

def sameOrigin (self : Request) : Bool := self.origin == some self.url

/-- `str::parse::<i64>`. -/
def parseInteger (s : String) : Option Int :=
  let value (ds : List Char) : Option Nat :=
    if ds ≠ [] ∧ ds.all Char.isDigit = true then some (ds.foldl (fun n c => 10 * n + (c.toNat - 48)) 0) else none
  match s.toList with
  | '-' :: ds => (value ds).bind fun n => if n ≤ 2 ^ 63 then some (-n) else none
  | '+' :: ds => (value ds).bind fun n => if n < 2 ^ 63 then some n else none
  | ds => (value ds).bind fun n => if n < 2 ^ 63 then some n else none

def quote : Char := Char.ofNat 34

/-- The text between two quotes. -/
def unquote (s : String) : Option String :=
  match s.toList with
  | first :: rest => if first = quote ∧ rest.getLast? = some quote then some (String.ofList rest.dropLast) else none
  | [] => none

/-- `expected_revision`: `-1` for a request that expects nothing to be there. -/
def expectedRevision (self : Request) : Option Int :=
  if self.ifNoneMatch.isSome ∧ self.ifMatch.isSome then none
  else if self.ifNoneMatch = some "*" then some (-1)
  else do
    let digits ← unquote (← self.ifMatch)
    let revision ← parseInteger digits
    if revision > 0 ∧ revision < 9007199254740991 then some revision else none

/-- `operation_id`. -/
def operationId (self : Request) : Option String := do
  let id ← self.operation
  if id.utf8ByteSize = 43 ∧ (Text.bytes id).all (fun b => Text.isAlphanumeric b || b == 45 || b == 95) = true then some id
  else none

end Request

/-- What `request_hash` hashes. -/
def requestPreimage (method scope : String) (expected : Nat) (body : String) : List UInt8 :=
  Text.bytes method ++ [0] ++ Text.bytes scope ++ [0] ++ Framing.be64 expected ++ Text.bytes body

/-- `request_hash`. -/
def requestHash [Base64] (method scope : String) (expected : Nat) (body : String) : String :=
  encode64 (Sha.sha256 (requestPreimage method scope expected body))

/-- `sso_context`. -/
structure ContextRow where
  ssoId : String
  secretHash : String
  deriving DecidableEq

/-- `sso_session`. -/
structure SessionRow where
  ssoId : String
  accountId : String
  credentialId : String
  epoch : Nat
  expiresAt : Nat
  revoked : Bool
  deriving DecidableEq

/-- `dbsc_session`. -/
structure BoundSessionRow where
  ssoId : String
  cookieExpiresAt : Nat
  deriving DecidableEq

/-- `account_security`. -/
structure AccountRow where
  accountId : String
  epoch : Nat
  active : Bool
  deriving DecidableEq

structure CredentialRow where
  credentialId : String
  accountId : String
  active : Bool
  deriving DecidableEq

/-- What the vault reads of the accounts, and the clock of the database. -/
structure Accounts where
  contexts : List ContextRow
  sessions : List SessionRow
  boundSessions : List BoundSessionRow
  accounts : List AccountRow
  credentials : List CredentialRow
  unixepoch : Nat

structure Owner where
  accountId : String
  secretHash : String
  credentialId : String
  deriving DecidableEq

namespace Accounts

/-- The session behind a secret is live: not revoked, not expired, of the current epoch of an active account, and made
with an active credential of it. -/
def live (self : Accounts) (secretHash : String) (now : Nat) (ss : SessionRow) : Prop :=
  (∃ sx ∈ self.contexts, sx.secretHash = secretHash ∧ sx.ssoId = ss.ssoId) ∧ ss.revoked = false ∧ ss.expiresAt > now ∧
    (∃ a ∈ self.accounts, a.accountId = ss.accountId ∧ a.active = true ∧ a.epoch = ss.epoch) ∧
    ∃ c ∈ self.credentials, c.credentialId = ss.credentialId ∧ c.accountId = ss.accountId ∧ c.active = true

instance (self : Accounts) (secretHash : String) (now : Nat) : DecidablePred (self.live secretHash now) :=
  fun _ => inferInstanceAs (Decidable (_ ∧ _))

/-- The statements' `EXISTS` of a live session of the account and the credential. -/
def authorised (self : Accounts) (account credential secretHash : String) (now : Nat) : Prop :=
  ∃ ss ∈ self.sessions, ss.accountId = account ∧ ss.credentialId = credential ∧ self.live secretHash now ss

instance (self : Accounts) (account credential secretHash : String) (now : Nat) :
    Decidable (self.authorised account credential secretHash now) := List.decidableBEx _ _

/-- The query of `owner`. -/
def owner (self : Accounts) (secretHash : String) (now : Nat) : Option Owner :=
  (self.sessions.find? fun ss => self.live secretHash now ss ∧
    ¬∃ ds ∈ self.boundSessions, ds.ssoId = ss.ssoId ∧ ds.cookieExpiresAt ≤ now).map fun ss =>
      ⟨ss.accountId, secretHash, ss.credentialId⟩

theorem owner_authorised {self : Accounts} {secretHash : String} {now : Nat} {o : Owner}
    (h : self.owner secretHash now = some o) :
    o.secretHash = secretHash ∧ self.authorised o.accountId o.credentialId secretHash now := by
  unfold owner at h
  obtain ⟨ss, hs, rfl⟩ := Option.map_eq_some_iff.mp h
  have hp := List.find?_some hs
  simp only [decide_eq_true_eq] at hp
  exact ⟨rfl, ss, List.mem_of_find?_eq_some hs, rfl, rfl, hp.1⟩

end Accounts

/-! ## Calls -/

section
variable {δ τ α : Type}

/-- `let Some(value) = .. else { return error(status, code) }`. -/
def demand (x : Option α) (e : Failure) : Calls Failure δ τ α :=
  match x with
  | some a => pure a
  | none => throw e

/-- `now_seconds`, its `n`th reading. -/
def Request.now (self : Request) (n : Nat) : Calls Failure δ τ Nat := demand (self.clock n) .server

/-- `owner`. -/
def owner [Base64] (accounts : δ → Accounts) (request : Request) (n : Nat) : Calls Failure δ τ (Option Owner) := do
  match request.cookie with
  | none => return none
  | some cookie =>
    let now ← request.now n
    let d ← read
    return (accounts d).owner (encode64 (Sha.sha256 (Text.bytes cookie))) now

end

/-! ## Calls by themselves -/

section
variable {δ τ α : Type} {Y : System δ τ} {d d' : δ}

theorem alone_read : alone Y Failure.server (read : Calls Failure δ τ δ).run d = (.ok d, d) := rfl

theorem alone_fails_neg {c : Prop} [Decidable c] (h : ¬c) (e : Failure) :
    alone Y Failure.server (fails c e : Calls Failure δ τ Unit).run d = (.ok (), d) := by
  unfold fails
  rw [if_neg h]
  rfl

theorem alone_demand_some {x : Option α} {a : α} (h : x = some a) (e : Failure) :
    alone Y Failure.server (demand x e : Calls Failure δ τ α).run d = (.ok a, d) := by
  rw [h]
  rfl

theorem quiet_fails {φ : Transactions.Request Failure δ τ → Prop} (n : Nat) (c : Prop) [Decidable c] (e : Failure) :
    Prog.AtMost φ n (fails c e : Calls Failure δ τ Unit).run :=
  (Prog.Only.fails (P := fun _ => False) c e).atMost fun _ h => h.elim

theorem quiet_demand {φ : Transactions.Request Failure δ τ → Prop} (n : Nat) (x : Option α) (e : Failure) :
    Prog.AtMost φ n (demand x e : Calls Failure δ τ α).run := by
  cases x with
  | none => exact .ret _
  | some a => exact .ret _

theorem only_demand {P : Transactions.Request Failure δ τ → Prop} (x : Option α) (e : Failure) :
    Prog.Only P (demand x e : Calls Failure δ τ α).run := by
  cases x with
  | none => exact .ret _
  | some a => exact .ret _

end

/-! ## What the calls give -/

section
variable {ι δ τ α : Type} {Y : System δ τ} {K : Discipline ι δ τ} {i : ι}

theorem gives_pure {A : α → Prop} {a : α} (h : A a) :
    Ensures (world Y) (contract Y K) i (fun _ => True) (pure a : Calls Failure δ τ α) fun a _ => A a :=
  .pure fun _ _ _ => h

theorem gives_fails (c : Prop) [Decidable c] (e : Failure) :
    Ensures (world Y) (contract Y K) i (fun _ => True) (fails c e : Calls Failure δ τ Unit) fun _ _ => ¬c :=
  Ensures.fails.post fun _ _ _ h => h.2

theorem gives_demand (x : Option α) (e : Failure) :
    Ensures (world Y) (contract Y K) i (fun _ => True) (demand x e : Calls Failure δ τ α) fun a _ => x = some a := by
  cases x with
  | none => exact .throw
  | some a => exact gives_pure rfl

theorem gives_owner [Base64] (accounts : δ → Accounts) (request : Request) (n : Nat) :
    Ensures (world Y) (contract Y K) i (fun _ => True) (owner accounts request n : Calls Failure δ τ (Option Owner))
      fun _ _ => True := by
  unfold owner
  cases request.cookie with
  | none => exact gives_pure trivial
  | some cookie => exact (gives_demand _ _).andThen fun now _ => spec_any.andThen fun d _ => gives_pure trivial

end

end Mikaki.Vault
