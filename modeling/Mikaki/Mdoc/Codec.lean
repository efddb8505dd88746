import Mikaki.Lib.Cbor
import Mikaki.Lib.Checks
import Mikaki.Identity.WalletAuthorization

/-!
# The bounded CBOR of an mdoc

Bytes are scanned before they are decoded: definite lengths, bounded nesting,
collections and number of values, and no floating-point number. A map may not
repeat a key, and what was decoded has to be written as the same bytes.
-/

namespace Mikaki.Mdoc

open Checks Cbor
open Mikaki.Identity.Wallet (orElse orElse_eq_ok)

def docType : String := "app.tossa.mikaki.linked_document.1"

def namespace_ : String := "app.tossa.mikaki.linked_document.1"

/-- `ciborium`: writing a value, and reading one. -/
class Ciborium where
  intoWriter : Value → Option (List UInt8)
  fromReader : List UInt8 → Option Value

def encode [Ciborium] (v : Value) : Except String (List UInt8) := orElse "invalid_mdoc" (Ciborium.intoWriter v)

/-! ## Scanning -/

/-- The argument of a head with the additional information `ai`, and the position after it. -/
def argument (b : List UInt8) (ai p : Nat) : Option (Nat × Nat) :=
  if ai < 24 then some (ai, p)
  else if ai < 28 then
    let size := 2 ^ (ai - 24)
    if p + size ≤ b.length then some (valueOf ((b.drop p).take size), p + size) else none
  else none

/-- `n` rounds of a loop. -/
def rounds {σ : Type} (f : σ → Except String σ) : Nat → σ → Except String σ
  | 0, s => .ok s
  | n + 1, s => f s >>= rounds f n

/-- What follows a head of type `major` with the argument `n`; `inner` goes over a value in it. -/
def contents (b : List UInt8) (inner : Nat × Nat → Except String (Nat × Nat)) (major ai n p nodes : Nat) :
    Except String (Nat × Nat) :=
  match major with
  | 0 | 1 => .ok (p, nodes)
  | 2 | 3 => if p + n ≤ b.length then .ok (p + n, nodes) else .error "invalid_mdoc"
  | 4 => if n > 64 then .error "invalid_mdoc" else rounds inner n (p, nodes)
  | 5 => if n > 64 then .error "invalid_mdoc" else rounds inner (n * 2) (p, nodes)
  | 6 => if n ≠ 24 ∧ n ≠ 0 then .error "invalid_mdoc" else inner (p, nodes)
  | _ => if 20 ≤ ai ∧ ai ≤ 22 then .ok (p, nodes) else .error "invalid_mdoc"

/-- The position and the number of values after the value at a position, which may have `room` levels. -/
def scan (b : List UInt8) : Nat → Nat × Nat → Except String (Nat × Nat)
  | 0, _ => .error "invalid_mdoc"
  | room + 1, (p, nodes) => do
    denyIf (nodes + 1 > 512) "invalid_mdoc"
    let h ← orElse "invalid_mdoc" b[p]?
    let (n, p) ← orElse "invalid_mdoc" (argument b (h.toNat % 32) (p + 1))
    contents b (scan b room) (h.toNat / 32) (h.toNat % 32) n p (nodes + 1)

/-! ## Decoding -/

section
variable [Ciborium]

/-- Keys are compared by their bytes. -/
local instance lawfulBytes : LawfulBEq (List UInt8) := inferInstance

mutual
def unique : Value → Except String Unit
  | .map ms => uniquePairs [] ms
  | .array xs => uniqueAll xs
  | .tag _ v => unique v
  | _ => .ok ()
def uniqueAll : List Value → Except String Unit
  | [] => .ok ()
  | x :: xs => do
    unique x
    uniqueAll xs
/-- After the entries whose keys are written as `seen`. -/
def uniquePairs (seen : List (List UInt8)) : List (Value × Value) → Except String Unit
  | [] => .ok ()
  | (k, v) :: ms => do
    let key ← encode k
    denyIf (key ∈ seen) "invalid_mdoc"
    unique k
    unique v
    uniquePairs (key :: seen) ms
end

def decode (b : List UInt8) : Except String Value := do
  denyIf (b = [] ∨ b.length > 32000) "invalid_mdoc"
  let (p, _) ← scan b 17 (0, 0)
  denyIf (p ≠ b.length) "invalid_mdoc"
  let v ← orElse "invalid_mdoc" (Ciborium.fromReader b)
  unique v
  let again ← encode v
  denyIf (again ≠ b) "invalid_mdoc"
  return v

end

end Mikaki.Mdoc
