import Mikaki.Lib.Base64url
import Mikaki.Lib.Checks
import Mikaki.Lib.JsonSound

/-!
# Token keys of RSA

The private key of the issuer and the public keys of a set as they are parsed
from JSON Web Keys, and the length of a signature.
-/

namespace Mikaki.Oidc.Signing

/-- `kid.bytes().any(|byte| byte.is_ascii_control())`. -/
def hasControl (s : String) : Bool := (Text.bytes s).any fun b => b < 32 || b == 127

/-- The optional members of a key. -/
structure Usage where
  alg : Option String
  use_ : Option String
  keyOps : Option (List String)
  ext : Option Bool
  deriving DecidableEq

structure RsaPublicJwk extends Usage where
  kty : String
  kid : String
  n : String
  e : String
  deriving DecidableEq

structure RsaPrivateJwk extends RsaPublicJwk where
  d : String
  p : String
  q : String
  dp : String
  dq : String
  qi : String
  deriving DecidableEq

structure PublicJwk extends Usage where
  kty : String
  crv : String
  kid : String
  x : String
  y : String
  deriving DecidableEq

/-! ## Members -/

def readBool : Json.Value → Option Bool
  | .bool b => some b
  | _ => none

/-- A member that may be absent or null. -/
def optional {α : Type} (read : Json.Value → Option α) : Option Json.Value → Option (Option α)
  | none => some none
  | some .null => some none
  | some v => (read v).map some

def required (field : String → Option Json.Value) (name : String) : Option String := (field name).bind Json.Value.asStr

def Usage.read (field : String → Option Json.Value) : Option Usage := do
  let alg ← optional Json.Value.asStr (field "alg")
  let use_ ← optional Json.Value.asStr (field "use")
  let keyOps ← optional (Json.Value.asArr Json.Value.asStr) (field "key_ops")
  let ext ← optional readBool (field "ext")
  return { alg, use_, keyOps, ext }

def Usage.members (self : Usage) : List (String × Json.Value) :=
  (self.alg.map fun s => ("alg", Json.Value.str s)).toList ++ (self.use_.map fun s => ("use", Json.Value.str s)).toList ++
    (self.keyOps.map fun ops => ("key_ops", Json.Value.arr (ops.map .str))).toList ++ (self.ext.map fun b => ("ext", Json.Value.bool b)).toList

def RsaPublicJwk.read (value : Json.Value) : Option RsaPublicJwk := do
  let field ← Json.fields ["kty", "kid", "n", "e", "alg", "use", "key_ops", "ext"] value
  let kty ← required field "kty"
  let kid ← required field "kid"
  let n ← required field "n"
  let e ← required field "e"
  let usage ← Usage.read field
  return { usage with kty, kid, n, e }

def RsaPrivateJwk.read (value : Json.Value) : Option RsaPrivateJwk := do
  let field ← Json.fields ["kty", "kid", "n", "e", "d", "p", "q", "dp", "dq", "qi", "alg", "use", "key_ops", "ext"] value
  let kty ← required field "kty"
  let kid ← required field "kid"
  let n ← required field "n"
  let e ← required field "e"
  let d ← required field "d"
  let p ← required field "p"
  let q ← required field "q"
  let dp ← required field "dp"
  let dq ← required field "dq"
  let qi ← required field "qi"
  let usage ← Usage.read field
  return { usage with kty, kid, n, e, d, p, q, dp, dq, qi }

def PublicJwk.read (value : Json.Value) : Option PublicJwk := do
  let field ← Json.fields ["kty", "crv", "kid", "x", "y", "alg", "use", "key_ops", "ext"] value
  let kty ← required field "kty"
  let crv ← required field "crv"
  let kid ← required field "kid"
  let x ← required field "x"
  let y ← required field "y"
  let usage ← Usage.read field
  return { usage with kty, crv, kid, x, y }

def RsaPublicJwk.json (self : RsaPublicJwk) : Json.Value :=
  .obj ([("kty", .str self.kty), ("kid", .str self.kid), ("n", .str self.n), ("e", .str self.e)] ++ self.members)

def RsaPrivateJwk.json (self : RsaPrivateJwk) : Json.Value :=
  .obj ([("kty", .str self.kty), ("kid", .str self.kid), ("n", .str self.n), ("e", .str self.e), ("d", .str self.d), ("p", .str self.p),
    ("q", .str self.q), ("dp", .str self.dp), ("dq", .str self.dq), ("qi", .str self.qi)] ++ self.members)

def PublicJwk.json (self : PublicJwk) : Json.Value :=
  .obj ([("kty", .str self.kty), ("crv", .str self.crv), ("kid", .str self.kid), ("x", .str self.x), ("y", .str self.y)] ++ self.members)

/-! ## Numbers -/

def decodeBase64urlUint (input : String) (minBytes maxBytes : Nat) : Option (List UInt8) := do
  let bytes ← Base64url.decode input
  if bytes.length < minBytes ∨ maxBytes < bytes.length ∨ bytes.headD 0 = 0 ∨ Base64url.encode bytes ≠ input then none
  else some bytes

/-- A 32-bit number; a product that overflows has a sum that does. -/
def exponentValue (exponent : List UInt8) : Option Nat :=
  exponent.foldlM (fun value b => if value * 256 + b.toNat < 2 ^ 32 then some (value * 256 + b.toNat) else none) 0

def decodeFixed (n : Nat) (input : String) : Option (List UInt8) := do
  let bytes ← Base64url.decode input
  if bytes.length ≠ n ∨ Base64url.encode bytes ≠ input then none else some bytes

/-! ## The private key -/

structure RsaPrivateTokenKey where
  jwk : RsaPrivateJwk
  deriving DecidableEq

def RsaPrivateTokenKey.fromPrivateJwk (input : String) : Option RsaPrivateTokenKey := do
  if 8192 < input.utf8ByteSize then none
  let jwk ← (Json.parse input).bind RsaPrivateJwk.read
  if jwk.kty ≠ "RSA" ∨ jwk.kid = "" ∨ 128 < jwk.kid.utf8ByteSize ∨ hasControl jwk.kid = true ∨ (∃ alg ∈ jwk.alg, alg ≠ "RS256") ∨
    (∃ use_ ∈ jwk.use_, use_ ≠ "sig") ∨ (∃ ops ∈ jwk.keyOps, ops ≠ ["sign"]) ∨ jwk.ext = some false then none
  let modulus ← decodeBase64urlUint jwk.n 256 512
  let exponent ← decodeBase64urlUint jwk.e 1 4
  if modulus.headD 0 < 0x80 ∨ (modulus.length = 512 ∧ 0x0f < modulus.headD 0) ∨ modulus.getLastD 0 &&& 1 = 0 ∨
    (exponentValue exponent).all (fun value => decide (value < 3 ∨ value % 2 = 0)) = true then none
  let _ ← decodeBase64urlUint jwk.d 1 512
  let _ ← decodeBase64urlUint jwk.p 1 256
  let _ ← decodeBase64urlUint jwk.q 1 256
  let _ ← decodeBase64urlUint jwk.dp 1 256
  let _ ← decodeBase64urlUint jwk.dq 1 256
  let _ ← decodeBase64urlUint jwk.qi 1 256
  return ⟨jwk⟩

/-! ## Public keys -/

/-- The canonical text, and the point of an elliptic curve. -/
structure PreparedPublicJwk where
  canonical : String
  point : Option (List UInt8)
  deriving DecidableEq

def validateRsaPublicMetadata (jwk : RsaPublicJwk) : Bool :=
  if jwk.kty ≠ "RSA" ∨ jwk.kid = "" ∨ 128 < jwk.kid.utf8ByteSize ∨ hasControl jwk.kid = true ∨ (∃ alg ∈ jwk.alg, alg ≠ "RS256") ∨
    (∃ use_ ∈ jwk.use_, use_ ≠ "sig") ∨ (∃ ops ∈ jwk.keyOps, ops ≠ [] ∧ ops ≠ ["verify"]) ∨ jwk.ext = some false then false
  else
    match decodeBase64urlUint jwk.n 256 512, decodeBase64urlUint jwk.e 1 4 with
    | some modulus, some exponent =>
      decide (0x80 ≤ modulus.headD 0) && (decide (modulus.length < 512) || decide (modulus.headD 0 ≤ 0x0f)) &&
        decide (modulus.getLastD 0 &&& 1 = 1) && (exponentValue exponent).any fun value => decide (3 ≤ value ∧ value % 2 = 1)
    | _, _ => false

/-- `value.get(name)?.as_str()?`; of repeated members the last one. -/
def member (name : String) : Json.Value → Option String
  | .obj ms => (ms.reverse.lookup name).bind Json.Value.asStr
  | _ => none

def prepareEc (jwk : PublicJwk) : Option PreparedPublicJwk := do
  if jwk.kty ≠ "EC" ∨ jwk.crv ≠ "P-256" ∨ jwk.kid = "" ∨ 128 < jwk.kid.utf8ByteSize ∨ hasControl jwk.kid = true ∨
    (∃ alg ∈ jwk.alg, alg ≠ "ES256") ∨ (∃ use_ ∈ jwk.use_, use_ ≠ "sig") ∨ (∃ ops ∈ jwk.keyOps, ops ≠ ["verify"]) ∨
    jwk.ext = some false then none
  let x ← decodeFixed 32 jwk.x
  let y ← decodeFixed 32 jwk.y
  return { canonical := { jwk with alg := some "ES256", use_ := some "sig", keyOps := none, ext := none : PublicJwk }.json.render
           point := some ([4] ++ x ++ y) }

def preparePublicJwk (input : String) : Option PreparedPublicJwk := do
  if 4096 < input.utf8ByteSize then none
  -- no member of a key is a number, so that a text with one is refused below if not here
  let value ← Json.parse input
  let kty ← member "kty" value
  if kty = "RSA" then
    let jwk ← RsaPublicJwk.read value
    if validateRsaPublicMetadata jwk = false then none
    return { canonical := { jwk with kty := "RSA", alg := some "RS256", use_ := some "sig", keyOps := none, ext := none : RsaPublicJwk }.json.render
             point := none }
  else (PublicJwk.read value).bind prepareEc

def RsaPrivateTokenKey.matchesPublicJwk (self : RsaPrivateTokenKey) (input : String) : Bool :=
  match preparePublicJwk input with
  | none => false
  | some prepared =>
    if prepared.point ≠ none then false
    else
      match (Json.parse prepared.canonical).bind RsaPublicJwk.read with
      | none => false
      | some pub => decide (pub.kty = "RSA" ∧ pub.kid = self.jwk.kid ∧ pub.n = self.jwk.n ∧ pub.e = self.jwk.e)

/-! ## Signatures -/

/-- `IdTokenSigningInput::finish` and `LogoutTokenSigningInput::finish`. -/
def finish (algorithm signingInput : String) (signature : List UInt8) : Option String :=
  let validLength : Bool :=
    if algorithm = "ES256" then signature.length = 64
    else if algorithm = "RS256" then decide (256 ≤ signature.length ∧ signature.length ≤ 512)
    else false
  if validLength = false then none else some (signingInput ++ "." ++ Base64url.encode signature)

end Mikaki.Oidc.Signing
