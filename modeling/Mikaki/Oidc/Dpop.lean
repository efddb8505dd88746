import Mikaki.Lib.Checks
import Mikaki.Lib.Sha
import Mikaki.Lib.Text
import Mikaki.Lib.Words
import Mikaki.Vault.Http

/-!
# DPoP proofs

What a proof has to say before its signature is checked, and how long it may
be accepted. Base64url, JSON, URLs and the signature are parameters.
-/

namespace Mikaki.Oidc

open Checks Words
open Mikaki.Vault (Base64 encode64 decode64)

inductive DpopTarget where
  | token
  | resource (accessToken thumbprint : String)
  deriving DecidableEq

inductive InvalidDpopProof where
  | invalidDpopProof
  deriving DecidableEq

structure VerifiedDpopProof where
  thumbprint : String
  jtiHash : String
  requestMethod : String
  requestEndpoint : String
  tokenTarget : Bool
  issuedAt : UInt64
  retainUntil : UInt64
  nonce : Option String
  deriving DecidableEq

structure PublicKey where
  kty : String
  crv : String
  x : String
  y : String
  alg : Option String
  use_ : Option String
  kid : Option String
  deriving DecidableEq

structure Header where
  alg : String
  typ : String
  jwk : PublicKey
  /-- The names of the other members. -/
  extensions : List String
  deriving DecidableEq

structure Claims where
  jti : String
  htm : String
  htu : String
  iat : UInt64
  ath : Option String
  nonce : Option String
  deriving DecidableEq

/-- A parsed URL, as far as `endpoint` reads it; `text` is its text without query and fragment. -/
structure Url where
  scheme : String
  host : Option String
  username : String
  password : Option String
  text : String
  deriving DecidableEq

/-- What `Es256Verification::new` has accepted. -/
structure Es256Verification where
  publicKey : List UInt8
  signature : List UInt8
  message : List UInt8
  deriving DecidableEq

class Formats extends Base64 where
  header : List UInt8 → Option Header
  claims : List UInt8 → Option Claims
  url : String → Option Url
  /-- The bounds of the two scalars. -/
  scalars : List UInt8 → Bool
  verify : Es256Verification → Bool

export Formats (header claims url scalars verify)

/-- `ok_or(..)?` and `map_err(|_| ..)?`. -/
def orInvalid {α : Type} : Option α → Except InvalidDpopProof α
  | some a => .ok a
  | none => .error .invalidDpopProof

/-- `split('.')`. -/
def segments (compact : String) : List String := (compact.toList.splitOn '.').map String.ofList

def isAsciiControl (b : UInt8) : Bool := b < 32 || b == 127

def isAsciiWhitespace (b : UInt8) : Bool := b == 32 || b == 9 || b == 10 || b == 12 || b == 13

section
variable [Formats]

/-- Canonical base64url. -/
def decode (value : String) : Except InvalidDpopProof (List UInt8) := do
  let bytes ← orInvalid (decode64 value)
  denyIf (encode64 bytes ≠ value) .invalidDpopProof
  return bytes

def endpoint (value : String) : Except InvalidDpopProof String := do
  denyIf (value.utf8ByteSize > 2048 ∨ (Text.bytes value).any (fun b => isAsciiControl b || isAsciiWhitespace b) = true)
    .invalidDpopProof
  let parsed ← orInvalid (url value)
  denyIf (parsed.scheme ≠ "https" ∨ parsed.host = none ∨ parsed.username ≠ "" ∨ parsed.password ≠ none) .invalidDpopProof
  return parsed.text

/-- `Es256Verification::new`. -/
def Es256Verification.new (publicKey signature message : List UInt8) : Option Es256Verification :=
  if ((publicKey.length = 33 ∧ (publicKey.head? = some 2 ∨ publicKey.head? = some 3)) ∨
      (publicKey.length = 65 ∧ publicKey.head? = some 4)) ∧ signature.length = 64 ∧ scalars signature = true then
    some ⟨publicKey, signature, message⟩
  else none

/-- The RFC 7638 thumbprint. -/
def PublicKey.thumbprint (jwk : PublicKey) : String :=
  encode64 (Sha.sha256 (Text.bytes
    ("\x7b\"crv\":\"P-256\",\"kty\":\"EC\",\"x\":\"" ++ jwk.x ++ "\",\"y\":\"" ++ jwk.y ++ "\"\x7d")))

def PublicKey.accepted (jwk : PublicKey) : Prop :=
  jwk.kty = "EC" ∧ jwk.crv = "P-256" ∧ (∀ a ∈ jwk.alg, a = "ES256") ∧ (∀ u ∈ jwk.use_, u = "sig") ∧
    ∀ k ∈ jwk.kid, k.utf8ByteSize ≤ 128

instance : DecidablePred PublicKey.accepted := fun _ => inferInstanceAs (Decidable (_ ∧ _))

def Header.accepted (header : Header) : Prop :=
  (["crit", "b64", "jku", "x5u"].any fun key => header.extensions.contains key) = false ∧ header.alg = "ES256" ∧
    header.typ = "dpop+jwt" ∧ header.jwk.accepted

instance : DecidablePred Header.accepted := fun _ => inferInstanceAs (Decidable (_ ∧ _))

def Claims.wellFormed (claims : Claims) : Prop :=
  claims.jti ≠ "" ∧ claims.jti.utf8ByteSize ≤ 256 ∧ (Text.bytes claims.jti).any isAsciiControl = false ∧
    ∀ nonce ∈ claims.nonce, nonce ≠ "" ∧ nonce.utf8ByteSize ≤ 128 ∧ (Text.bytes nonce).all (fun b => 0x21 ≤ b && b ≤ 0x7e) = true

instance : DecidablePred Claims.wellFormed := fun _ => inferInstanceAs (Decidable (_ ∧ _))

/-- The window of acceptance. -/
def Claims.current (claims : Claims) (now : UInt64) : Prop :=
  claims.iat ≤ saturatingAdd now 10 ∧ now ≤ saturatingAdd claims.iat 70

instance (now : UInt64) : DecidablePred fun claims : Claims => claims.current now := fun _ => inferInstanceAs (Decidable (_ ∧ _))

/-- A proof for a resource is of the token's key, and names the token. -/
def boundTo (claims : Claims) (thumbprint : String) : DpopTarget → Prop
  | .token => True
  | .resource accessToken expected => thumbprint = expected ∧ (Text.bytes accessToken).all (· < 128) = true ∧
      claims.ath = some (encode64 (Sha.sha256 (Text.bytes accessToken)))

instance (claims : Claims) (thumbprint : String) : DecidablePred (boundTo claims thumbprint)
  | .token => .isTrue trivial
  | .resource _ _ => inferInstanceAs (Decidable (_ ∧ _))

/-- `prepare_dpop_proof`. -/
def prepareDpopProof (compact method requestUri : String) (target : DpopTarget) (now : UInt64) :
    Except InvalidDpopProof (Es256Verification × VerifiedDpopProof) := do
  denyIf (compact.utf8ByteSize > 8192 ∨ ¬(method = "GET" ∨ method = "POST") ∨ now.toNat > 2 ^ 63 - 1 - 80) .invalidDpopProof
  match segments compact with
  | [h, c, s] => do
    let requestEndpoint ← endpoint requestUri
    let headerBytes ← decode h
    let header ← orInvalid (header headerBytes)
    let claimsBytes ← decode c
    let claims ← orInvalid (claims claimsBytes)
    let jwk := header.jwk
    denyIf (¬header.accepted ∨ claims.htm ≠ method) .invalidDpopProof
    let htu ← endpoint claims.htu
    denyIf (htu ≠ requestEndpoint ∨ ¬claims.wellFormed ∨ ¬claims.current now) .invalidDpopProof
    let x ← decode jwk.x
    let y ← decode jwk.y
    denyIf (x.length ≠ 32 ∨ y.length ≠ 32) .invalidDpopProof
    denyIf (¬boundTo claims jwk.thumbprint target) .invalidDpopProof
    let signatureBytes ← decode s
    let signature ← orInvalid (Es256Verification.new (4 :: (x ++ y)) signatureBytes (Text.bytes (h ++ "." ++ c)))
    return (signature,
      { thumbprint := jwk.thumbprint, jtiHash := encode64 (Sha.sha256 (Text.bytes claims.jti)), requestMethod := method
        requestEndpoint, tokenTarget := target = .token, issuedAt := claims.iat, retainUntil := claims.iat + 70
        nonce := claims.nonce })
  | _ => .error .invalidDpopProof

/-- `verify_dpop_proof` and its async form. -/
def verifyDpopProof (compact method requestUri : String) (target : DpopTarget) (now : UInt64) :
    Except InvalidDpopProof VerifiedDpopProof := do
  let (signature, proof) ← prepareDpopProof compact method requestUri target now
  denyIf (verify signature = false) .invalidDpopProof
  return proof

end

namespace VerifiedDpopProof

def isTokenPostTo (self : VerifiedDpopProof) (endpoint : String) : Bool :=
  self.tokenTarget && self.requestMethod == "POST" && self.requestEndpoint == endpoint

end VerifiedDpopProof

/-! ## What an accepted proof is -/

theorem orInvalid_eq_ok {α : Type} {x : Option α} {a : α} : orInvalid x = .ok a ↔ x = some a := by
  cases x <;> simp [orInvalid]

section
variable [Formats] {compact method requestUri : String} {target : DpopTarget} {now : UInt64} {proof : VerifiedDpopProof}

/-- The key and the claims of a proof's text, read without any check. -/
def claimsOf (compact : String) : Option (PublicKey × Claims) :=
  match segments compact with
  | [h, c, _] => do
    let header ← decode64 h >>= Formats.header
    let claims ← decode64 c >>= Formats.claims
    return (header.jwk, claims)
  | _ => none

theorem decode_eq_ok {value : String} {bytes : List UInt8} (h : decode value = .ok bytes) : decode64 value = some bytes := by
  simp only [decode, bind_eq_ok, orInvalid_eq_ok, pure_eq_ok] at h
  obtain ⟨b, hb, -, -, rfl⟩ := h
  exact hb

/-- An accepted proof says what its text says, in the window of its text. -/
theorem verifyDpopProof_ok (h : verifyDpopProof compact method requestUri target now = .ok proof) :
    ∃ jwk claims, claimsOf compact = some (jwk, claims) ∧ claims.current now ∧ now.toNat ≤ 2 ^ 63 - 1 - 80 ∧
      proof.thumbprint = jwk.thumbprint ∧ proof.jtiHash = encode64 (Sha.sha256 (Text.bytes claims.jti)) ∧
      proof.issuedAt = claims.iat ∧ proof.retainUntil = claims.iat + 70 := by
  simp only [verifyDpopProof, bind_eq_ok, pure_eq_ok] at h
  obtain ⟨⟨signature, p⟩, h, -, -, rfl⟩ := h
  simp only [prepareDpopProof, bind_eq_ok, exists_unit, denyIf_eq_ok, not_or] at h
  obtain ⟨⟨-, -, hnow⟩, h⟩ := h
  split at h
  · rename_i hd c s hsplit
    simp only [bind_eq_ok, exists_unit, denyIf_eq_ok, not_or, not_not, pure_eq_ok, orInvalid_eq_ok, Prod.mk.injEq] at h
    obtain ⟨-, -, headerBytes, hheader, header, hh, claimsBytes, hclaims, claims, hc, -, -, -, ⟨-, -, hcurrent⟩, -, -, -, -, -, -, -, -,
      -, -, -, rfl⟩ := h
    refine ⟨header.jwk, claims, ?_, hcurrent, Nat.le_of_not_lt hnow, rfl, rfl, rfl, rfl⟩
    simp only [claimsOf, hsplit, decode_eq_ok hheader, decode_eq_ok hclaims, Option.bind_eq_bind, Option.bind_some, hh, hc, Option.pure_def]
  · cases h

/-- The end of the retention is seventy seconds after the proof was made, with no overflow. -/
theorem verifyDpopProof_retain (h : verifyDpopProof compact method requestUri target now = .ok proof) :
    proof.retainUntil.toNat = proof.issuedAt.toNat + 70 ∧ now.toNat ≤ proof.retainUntil.toNat := by
  obtain ⟨jwk, claims, -, ⟨hiat, hlate⟩, hnow, -, -, hissued, hretain⟩ := verifyDpopProof_ok h
  rw [UInt64.le_iff_toNat_le, toNat_saturatingAdd] at hiat hlate
  have h10 : (10 : UInt64).toNat = 10 := rfl
  have h70 : (70 : UInt64).toNat = 70 := rfl
  have hsum : (claims.iat + 70).toNat = claims.iat.toNat + 70 := toNat_add (by omega)
  rw [hretain, hissued, hsum]
  exact ⟨rfl, by omega⟩

/-- Two acceptances of one text agree on the key, the identity and the retention. -/
theorem verifyDpopProof_same {method' requestUri' : String} {target' : DpopTarget} {now' : UInt64} {proof' : VerifiedDpopProof}
    (h : verifyDpopProof compact method requestUri target now = .ok proof)
    (h' : verifyDpopProof compact method' requestUri' target' now' = .ok proof') :
    proof'.thumbprint = proof.thumbprint ∧ proof'.jtiHash = proof.jtiHash ∧ proof'.issuedAt = proof.issuedAt ∧
      proof'.retainUntil = proof.retainUntil := by
  obtain ⟨jwk, claims, ht, -, -, h1, h2, h3, h4⟩ := verifyDpopProof_ok h
  obtain ⟨jwk', claims', ht', -, -, h1', h2', h3', h4'⟩ := verifyDpopProof_ok h'
  obtain ⟨rfl, rfl⟩ := Prod.mk.inj (Option.some.inj (ht.symm.trans ht'))
  exact ⟨h1'.trans h1.symm, h2'.trans h2.symm, h3'.trans h3.symm, h4'.trans h4.symm⟩

end

end Mikaki.Oidc
