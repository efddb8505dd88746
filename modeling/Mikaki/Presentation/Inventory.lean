import Mikaki.Presentation.DcqlSound
import Mikaki.Presentation.Disclosures
import Mikaki.Mdoc.Response

/-!
# Selection from an inventory

The first receipt that fits a query is its candidate. What has a candidate is
available to the selection; one that is selected is taken with its receipt.
-/

namespace Mikaki.Presentation

open Checks
open Mikaki.Vault (Base64)
open Mikaki.Identity.Wallet (orElse orElse_eq_ok PublicJwk)
open Mikaki.Mdoc (selectedValues)

structure ApprovedRequest where
  dcqlQuery : Dcql
  exp : UInt64
  authenticationDeadline : UInt64
  fields : List String
  retainedFields : List String
  deriving DecidableEq

structure VerifiedCredential (Trust : Type) where
  credential : String
  format : String
  issuerKey : PublicJwk
  holder : PublicJwk
  issuer : String
  kid : String
  trust : Trust
  expires : UInt64
  vct : Option String

/-- Receipts, their certificates and the configured roots. -/
class Receipts (Trust Value : outParam Type) extends Base64, Serde Value where
  verifyReceipt : String → PublicJwk → String → PublicJwk → String → UInt64 → Except String Unit
  /-- The values of an mdoc receipt. -/
  verifyMdoc : String → PublicJwk → PublicJwk → UInt64 → Except String (List (String × Value))
  verifyTrust : Trust → String → String → PublicJwk → UInt64 → UInt64 → Except String Unit
  /-- The key identifiers of the authorities in a chain that is trusted. -/
  authorityIdentifiers : Trust → String → String → PublicJwk → UInt64 → UInt64 → Except String (List (List UInt8))

def ApprovedRequest.expiresAt (self : ApprovedRequest) : UInt64 := min self.exp self.authenticationDeadline

def ApprovedRequest.format (self : ApprovedRequest) : String := (self.dcqlQuery.credentials.head?.map (·.format)).getD ""

structure InventoryRequest where
  request : ApprovedRequest
  vct : String
  deriving DecidableEq

structure SelectedCredential (Trust : Type) where
  request : ApprovedRequest
  credential : VerifiedCredential Trust
  index : Nat

structure PreparedInventory (Trust : Type) where
  request : ApprovedRequest
  selected : List (SelectedCredential Trust)
  expires : UInt64

section
variable {Trust Value : Type}

/-- Each is taken once. -/
def takeAll : List (Option (SelectedCredential Trust)) → List Nat → Except String (List (SelectedCredential Trust))
  | _, [] => .ok []
  | candidates, i :: indices => do
    let item ← orElse unsatisfiedQuery (candidates.getD i none)
    let rest ← takeAll (candidates.set i none) indices
    return item :: rest

variable [Receipts Trust Value]

/-- Whether one of the values is the key identifier of an authority. -/
def matchesIdentifier (identifiers : List (List UInt8)) : List String → Except String Bool
  | [] => .ok false
  | value :: values => do
    let identifier ← aki value
    let rest ← matchesIdentifier identifiers values
    return decide (identifier ∈ identifiers) || rest

def matchesAuthority (identifiers : List (List UInt8)) : List Authority → Except String Bool
  | [] => .ok false
  | authority :: authorities => do
    let first ← if authority.kind = "aki" then matchesIdentifier identifiers authority.values else .ok false
    let rest ← matchesAuthority identifiers authorities
    return first || rest

def ApprovedRequest.checkCredentialAuthorities (self : ApprovedRequest) (credential : String) (trust : Option Trust)
    (key : PublicJwk) (now expires : UInt64) : Except String Unit := do
  let constraints := self.dcqlQuery.credentials.filterMap (·.trustedAuthorities)
  if constraints = [] then return
  let trust ← orElse "credential_authority_unavailable" trust
  let identifiers ← Receipts.authorityIdentifiers trust credential self.format key now expires
  checkAll constraints fun authorities => do
    let matched ← matchesAuthority identifiers authorities
    denyIf (matched = false) "credential_does_not_match"

def VerifiedCredential.revalidate (self : VerifiedCredential Trust) (now : UInt64) : Except String Unit := do
  denyIf (now ≥ self.expires) "credential_expired"
  if self.format = "dc+sd-jwt" then
    Receipts.verifyReceipt self.credential self.issuerKey self.kid self.holder self.issuer now
  else
    let _ ← Receipts.verifyMdoc self.credential self.issuerKey self.holder now
  Receipts.verifyTrust self.trust self.credential self.format self.issuerKey now self.expires

/-- The request of one query of `self`. -/
def ApprovedRequest.single (self : ApprovedRequest) (query : Query) (fields retained : List String) : ApprovedRequest :=
  { self with dcqlQuery := ⟨[query], none⟩, fields, retainedFields := retained }

/-- Whether a receipt answers the one query of `request`. -/
def usable (vct : String) (request : ApprovedRequest) (query : Query) (now : UInt64) (c : VerifiedCredential Trust) : Bool :=
  (c.revalidate now).isOk && c.format == query.format &&
    (c.format != "dc+sd-jwt" || c.vct.any fun v => decide (v ∈ catalog vct) && (select request.dcqlQuery v).isOk) &&
    (request.checkCredentialAuthorities c.credential (some c.trust) c.issuerKey now c.expires).isOk &&
    if c.format = "dc+sd-jwt" then (selectDisclosures c.credential request.fields).isOk
    else (Receipts.verifyMdoc c.credential c.issuerKey c.holder now >>= fun values => selectedValues values request.fields).isOk

namespace InventoryRequest

/-- The first receipt for a query, if its type is one of the catalog. -/
def candidate (self : InventoryRequest) (credentials : List (VerifiedCredential Trust)) (now : UInt64) (query : Query) :
    Except String (Option (SelectedCredential Trust)) :=
  match selectAvailableTypes ⟨[query], none⟩ (catalog self.vct) none with
  | .error error => if error = unsatisfiedQuery then .ok none else .error error
  | .ok _ => do
    let (fields, retained) ← fields query
    let request := self.request.single query fields retained
    return (credentials.zipIdx.find? fun c => usable self.vct request query now c.1).map fun c => ⟨request, c.1, c.2⟩

def select (self : InventoryRequest) (credentials : List (VerifiedCredential Trust)) (now : UInt64) :
    Except String (PreparedInventory Trust) := do
  denyIf (credentials = [] ∨ credentials.length > 8 ∨ now ≥ self.request.expiresAt) "invalid_inventory"
  let candidates ← collect self.request.dcqlQuery.credentials (self.candidate credentials now)
  let available := candidates.map Option.isSome
  let indices ← selectAvailableTypes self.request.dcqlQuery (catalog self.vct) (some available)
  let selected ← takeAll candidates indices
  return ⟨self.request, selected, selected.foldl (fun expires item => min expires item.credential.expires) self.request.expiresAt⟩

end InventoryRequest

end

end Mikaki.Presentation
