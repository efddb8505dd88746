import Mikaki.Identity.WalletAuthorization

/-!
# Disclosures of a credential

An SD-JWT is the issuer's token and the disclosures that the holder sends with
it, a tilde after each. Those of the requested fields are kept in their order;
the others are dropped, though each of them has to be well formed.
-/

namespace Mikaki.Presentation

open Checks
open Mikaki.Vault (Base64 encode64 decode64)
open Mikaki.Identity.Wallet (orElse orElse_eq_ok)

/-- `serde_json`: reading a text, and what a value is. -/
class Serde (Value : outParam Type) where
  fromSlice : List UInt8 → Option Value
  asArray : Value → Option (List Value)
  asStr : Value → Option String

def parts (credential : String) : List String := (credential.toList.splitOn '~').map String.ofList

def endsWith (s : String) (c : Char) : Bool := s.toList.getLast? == some c

section
variable {Value : Type} [Base64] [Serde Value]

/-- The name and the value of a disclosure. -/
def readDisclosure (disclosure : String) : Except String (String × Value) := do
  let bytes ← orElse "invalid_credential" (decode64 disclosure)
  let v ← orElse "invalid_credential" (Serde.fromSlice bytes)
  match Serde.asArray v with
  | some [_, name, value] =>
    let name ← orElse "invalid_credential" (Serde.asStr name)
    return (name, value)
  | _ => throw "invalid_credential"

/-- The disclosures to send and their values, after those with the names `seen`. -/
def selectFrom (fields : List String) : List String → List String → Except String (List String × List (String × Value))
  | _, [] => .ok ([], [])
  | seen, disclosure :: disclosures => do
    let (name, value) ← readDisclosure disclosure
    denyIf (name ∈ seen) "invalid_credential"
    let (sent, values) ← selectFrom fields (name :: seen) disclosures
    return if name ∈ fields then (disclosure :: sent, (name, value) :: values) else (sent, values)

/-- The issuer's token with disclosures. -/
def join (jwt : String) (disclosures : List String) : String :=
  jwt ++ "~" ++ String.join (disclosures.map (· ++ "~"))

def selectDisclosures (credential : String) (fields : List String) : Except String (String × List (String × Value)) := do
  denyIf (credential.utf8ByteSize > 24000 ∨ endsWith credential '~' = false) "invalid_credential"
  match parts credential with
  | [] => throw "invalid_credential"
  | jwt :: disclosures =>
    let (sent, values) ← selectFrom fields [] (disclosures.filter (· ≠ ""))
    denyIf (∃ f ∈ fields, values.lookup f = none) "credential_does_not_match"
    return (join jwt sent, values)

end

end Mikaki.Presentation
