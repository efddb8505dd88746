import Mikaki.Oidc.Dpop

/-!
# Client assertions

What a `private_key_jwt` has to say before its signature is checked, and how
long its identity has to be kept.
-/

namespace Mikaki.Oidc

open Checks Words
open Mikaki.Vault (decode64)

structure ClientAssertionKey where
  clientId : String
  keyId : String
  clientRevision : UInt64
  keyRevision : UInt64
  active : Bool
  sec1PublicKey : List UInt8
  deriving DecidableEq

structure ClientAssertionPolicy where
  maximumLifetimeSeconds : UInt64
  clockSkewSeconds : UInt64
  deriving DecidableEq

structure ProtectedHeader where
  alg : String
  kid : String
  typ : Option String
  deriving DecidableEq

inductive Audience where
  | one (value : String)
  | many (values : List String)
  deriving DecidableEq

def Audience.matchesExactly : Audience → String → Bool
  | .one value, expected => value == expected
  | .many values, expected => values == [expected]

def Audience.isOne : Audience → Bool
  | .one _ => true
  | .many _ => false

structure AssertionClaims where
  iss : String
  sub : String
  aud : Audience
  exp : UInt64
  iat : UInt64
  nbf : Option UInt64
  jti : String
  deriving DecidableEq

structure VerifiedClientAssertion where
  clientId : String
  keyId : String
  clientRevision : UInt64
  keyRevision : UInt64
  audience : String
  jti : String
  issuedAt : UInt64
  retainUntil : UInt64
  deriving DecidableEq

inductive InvalidClientAssertion where
  | invalidClientAssertion
  deriving DecidableEq

class AssertionFormats extends Formats where
  protectedHeader : List UInt8 → Option ProtectedHeader
  assertionClaims : List UInt8 → Option AssertionClaims

export AssertionFormats (protectedHeader assertionClaims)

def orAssertion {α : Type} : Option α → Except InvalidClientAssertion α
  | some a => .ok a
  | none => .error .invalidClientAssertion

/-- The largest `i64`. -/
def largest : Nat := 2 ^ 63 - 1

def ClientAssertionPolicy.fromSeconds (maximumLifetimeSeconds clockSkewSeconds : UInt64) :
    Except InvalidClientAssertion ClientAssertionPolicy := do
  denyIf (maximumLifetimeSeconds = 0 ∨ clockSkewSeconds = 0 ∨ maximumLifetimeSeconds.toNat > largest ∨
    clockSkewSeconds.toNat > largest - maximumLifetimeSeconds.toNat) .invalidClientAssertion
  return { maximumLifetimeSeconds, clockSkewSeconds }

/-- The times that a verifier accepts at `now`; only FAPI knows `nbf`. -/
def AssertionClaims.current (claims : AssertionClaims) (now : UInt64) (policy : ClientAssertionPolicy) (fapi : Bool) : Prop :=
  (fapi = false → claims.nbf = none) ∧
    (fapi = true → (claims.nbf.all fun nbf => nbf ≤ saturatingAdd now 10 ∧ nbf ≤ claims.exp) = true) ∧ claims.iat < claims.exp ∧
    saturatingSub claims.exp claims.iat ≤ policy.maximumLifetimeSeconds ∧
    claims.iat ≤ saturatingAdd now policy.clockSkewSeconds ∧ saturatingSub now policy.clockSkewSeconds < claims.exp

instance (claims : AssertionClaims) (now : UInt64) (policy : ClientAssertionPolicy) (fapi : Bool) :
    Decidable (claims.current now policy fapi) := inferInstanceAs (Decidable (_ ∧ _))

section
variable [AssertionFormats]

def decodeSegment (value : String) : Except InvalidClientAssertion (List UInt8) := do
  let bytes ← orAssertion (decode64 value)
  denyIf (Mikaki.Vault.encode64 bytes ≠ value) .invalidClientAssertion
  return bytes

namespace ClientAssertionKey

def prepareAssertion (self : ClientAssertionKey) (compact expectedAudience : String) (now : UInt64)
    (policy : ClientAssertionPolicy) (maxAssertionBytes : Nat) (fapi : Bool) :
    Except InvalidClientAssertion (Es256Verification × VerifiedClientAssertion) := do
  denyIf (self.active = false ∨ self.clientId = "" ∨ self.keyId = "" ∨ maxAssertionBytes = 0 ∨
    compact.utf8ByteSize > maxAssertionBytes ∨ expectedAudience = "") .invalidClientAssertion
  match segments compact with
  | [h, c, s] => do
    denyIf (h = "" ∨ c = "" ∨ s = "") .invalidClientAssertion
    let headerBytes ← decodeSegment h
    let claimsBytes ← decodeSegment c
    let signatureBytes ← decodeSegment s
    let header ← orAssertion (protectedHeader headerBytes)
    let claims ← orAssertion (assertionClaims claimsBytes)
    denyIf (header.alg ≠ "ES256" ∨ header.kid ≠ self.keyId ∨ (header.typ.any (· ≠ "JWT")) = true ∨
      claims.iss ≠ self.clientId ∨ claims.sub ≠ self.clientId ∨ claims.aud.matchesExactly expectedAudience = false ∨
      (fapi = true ∧ claims.aud.isOne = false) ∨ claims.jti = "" ∨ claims.jti.utf8ByteSize > 256 ∨
      (Text.bytes claims.jti).any isAsciiControl = true ∨ ¬claims.current now policy fapi) .invalidClientAssertion
    let signature ← orAssertion (Es256Verification.new self.sec1PublicKey signatureBytes (Text.bytes (h ++ "." ++ c)))
    let retainUntil ← orAssertion (checkedAdd claims.exp policy.clockSkewSeconds)
    return (signature,
      { clientId := self.clientId, keyId := self.keyId, clientRevision := self.clientRevision
        keyRevision := self.keyRevision, audience := expectedAudience, jti := claims.jti, issuedAt := claims.iat, retainUntil })
  | _ => .error .invalidClientAssertion

/-- Prepare, then check the signature. -/
def verifyWith (self : ClientAssertionKey) (compact expectedAudience : String) (now : UInt64) (policy : ClientAssertionPolicy)
    (maxAssertionBytes : Nat) (fapi : Bool) : Except InvalidClientAssertion VerifiedClientAssertion := do
  let (signature, assertion) ← self.prepareAssertion compact expectedAudience now policy maxAssertionBytes fapi
  denyIf (Formats.verify signature = false) .invalidClientAssertion
  return assertion

/-- `verify_private_key_jwt` and its async form. -/
def verifyPrivateKeyJwt (self : ClientAssertionKey) (compact expectedAudience : String) (now : UInt64)
    (policy : ClientAssertionPolicy) (maxAssertionBytes : Nat) : Except InvalidClientAssertion VerifiedClientAssertion :=
  self.verifyWith compact expectedAudience now policy maxAssertionBytes false

/-- `verify_fapi_private_key_jwt` and its async form. -/
def verifyFapiPrivateKeyJwt (self : ClientAssertionKey) (compact issuer : String) (now : UInt64) (maxAssertionBytes : Nat) :
    Except InvalidClientAssertion VerifiedClientAssertion := do
  let policy ← ClientAssertionPolicy.fromSeconds 60 10
  self.verifyWith compact issuer now policy maxAssertionBytes true

end ClientAssertionKey

end

/-! ## What an accepted assertion is -/

theorem orAssertion_eq_ok {α : Type} {x : Option α} {a : α} : orAssertion x = .ok a ↔ x = some a := by
  cases x with
  | none => exact ⟨(fun h => by cases h), fun h => by cases h⟩
  | some b => exact ⟨fun h => by cases h; rfl, fun h => by cases h; rfl⟩

section
variable [AssertionFormats] {key : ClientAssertionKey} {compact audience : String} {now : UInt64}
  {policy : ClientAssertionPolicy} {maxBytes : Nat} {fapi : Bool} {assertion : VerifiedClientAssertion}

/-- The claims of an assertion's text, read without any check. -/
def assertionClaimsOf (compact : String) : Option AssertionClaims :=
  match segments compact with
  | [_, c, _] => decode64 c >>= assertionClaims
  | _ => none

theorem decodeSegment_eq_ok {value : String} {bytes : List UInt8} (h : decodeSegment value = .ok bytes) :
    decode64 value = some bytes := by
  simp only [decodeSegment, bind_eq_ok, orAssertion_eq_ok, pure_eq_ok] at h
  obtain ⟨b, hb, -, -, rfl⟩ := h
  exact hb

/-- An accepted assertion says what its text says, for its audience and in the window of its text. -/
theorem verifyWith_ok (h : key.verifyWith compact audience now policy maxBytes fapi = .ok assertion) :
    ∃ claims, assertionClaimsOf compact = some claims ∧ claims.current now policy fapi ∧
      claims.aud.matchesExactly audience = true ∧ assertion.clientId = claims.iss ∧ assertion.jti = claims.jti ∧
      assertion.audience = audience ∧ checkedAdd claims.exp policy.clockSkewSeconds = some assertion.retainUntil := by
  simp only [ClientAssertionKey.verifyWith, bind_eq_ok, pure_eq_ok] at h
  obtain ⟨⟨signature, a⟩, h, -, -, rfl⟩ := h
  simp only [ClientAssertionKey.prepareAssertion, bind_eq_ok, exists_unit, denyIf_eq_ok] at h
  obtain ⟨-, h⟩ := h
  split at h
  · rename_i hd c s hsplit
    simp only [bind_eq_ok, exists_unit, denyIf_eq_ok, not_or, not_not, pure_eq_ok, orAssertion_eq_ok, Prod.mk.injEq] at h
    obtain ⟨-, headerBytes, -, claimsBytes, hclaims, signatureBytes, -, header, -, claims, hc,
      ⟨-, -, -, hiss, -, haud, -, -, -, -, hcurrent⟩, -, -, retainUntil, hretain, -, rfl⟩ := h
    refine ⟨claims, ?_, hcurrent, Bool.not_eq_false _ ▸ haud, hiss.symm, rfl, rfl, hretain⟩
    simp only [assertionClaimsOf, hsplit, decodeSegment_eq_ok hclaims, Option.bind_eq_bind, Option.bind_some, hc]
  · cases h

/-- The end of the retention is the end of the assertion and the skew, with no overflow, and verification ends before it. -/
theorem verifyWith_retain (h : key.verifyWith compact audience now policy maxBytes fapi = .ok assertion) :
    ∃ claims, assertionClaimsOf compact = some claims ∧
      assertion.retainUntil.toNat = claims.exp.toNat + policy.clockSkewSeconds.toNat ∧ now < assertion.retainUntil := by
  obtain ⟨claims, hc, ⟨-, -, -, -, -, hlate⟩, -, -, -, -, hretain⟩ := verifyWith_ok h
  have hsum := checkedAdd_eq_some.mp hretain
  refine ⟨claims, hc, hsum, ?_⟩
  rw [UInt64.lt_iff_toNat_lt, toNat_saturatingSub] at hlate
  rw [UInt64.lt_iff_toNat_lt, hsum]
  omega

end

end Mikaki.Oidc
