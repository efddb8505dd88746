import Mikaki.Identity.Validity
import Mikaki.Identity.WalletAuthorization

/-!
# Attributes that an issuer selects

The claims of a profile with their values in a verified document, in the order
of the profile. A document without an attribute has no value for its claim.
-/

namespace Mikaki.Identity

open Wallet (Claim)

structure DateTime where
  year : Nat
  month : Nat
  day : Nat
  hour : Nat
  minutes : Nat
  seconds : Nat
  deriving DecidableEq

/-- `der::DateTime`: from the seconds since 1970, and back. -/
class Calendar where
  fromUnix : Nat → Option DateTime
  toUnix : DateTime → Option Nat

structure Attributes where
  name : String
  address : String
  birthDate : String
  gender : String
  documentType : DocumentType
  expiryDate : Option String
  deriving DecidableEq

/-- A document whose evidence was verified. -/
structure Document where
  attributes : Attributes
  trustedKeyId : String
  verifiedAt : Nat
  assurance : String
  attributesSource : String
  deriving DecidableEq

def Document.verified (self : Document) : VerifiedDocument := ⟨self.attributes.documentType, self.attributes.expiryDate⟩

def DocumentType.text : DocumentType → String
  | .myNumberCard => "my_number_card"
  | .drivingLicense => "driving_license"
  | .passport => "passport"

def isAgeClaim (name : String) : Bool := name == "age_over_18" || name == "age_over_20"

/-- `claim_profile::supported`. -/
def supported (name : String) : Bool := Claim.all.any fun claim => claim.text = name

/-- Dates are compared by year, then month, then day. -/
def dateLt (a b : Nat × Nat × Nat) : Bool :=
  a.1 < b.1 || (a.1 == b.1 && (a.2.1 < b.2.1 || (a.2.1 == b.2.1 && a.2.2 < b.2.2)))

section
variable [Calendar]

/-- Whether the day of `time` is not before the birthday at that age. The year of the birthday is a 16-bit number. -/
def ageOver (birthdate : String) (time threshold : Nat) : Option Bool :=
  if validDate birthdate then
    (Calendar.fromUnix time).bind fun t =>
      let (year, month, day) := splitDate birthdate
      let today := (t.year, t.month, t.day)
      if dateLt today (year, month, day) then none
      else if year + threshold < 65536 then some (!dateLt today (year + threshold, month, day)) else none
  else none

def Wallet.Claim.value (document : Document) (time : Nat) : Claim → Option Json.Value
  | .name => some (.str document.attributes.name)
  | .address => some (.obj [("formatted", .str document.attributes.address)])
  | .birthdate => some (.str document.attributes.birthDate)
  | .gender => if document.attributes.gender = "" then none else some (.str document.attributes.gender)
  | .documentExpiryDate => document.attributes.expiryDate.map .str
  | .ageOver18 => (ageOver document.attributes.birthDate time 18).map .bool
  | .ageOver20 => (ageOver document.attributes.birthDate time 20).map .bool

/-- `ClaimProfile::values`. -/
def profileValues (profile : List Claim) (document : Document) (time : Nat) : List (String × Json.Value) :=
  profile.filterMap fun claim => (claim.value document time).map fun value => (claim.text, value)

end

/-- The keys of an object are in alphabetical order. -/
def evidenceMetadata (document : Document) (predicateAt : Option Nat) : List (String × Json.Value) :=
  match predicateAt with
  | none =>
    [("assurance", .str document.assurance), ("attributes_source", .str document.attributesSource),
      ("government_credential", .bool false), ("live_possession_verified", .bool false),
      ("trusted_key_id", .str document.trustedKeyId), ("verified_at", .num document.verifiedAt)]
  | some time =>
    [("assurance", .str document.assurance), ("attributes_source", .str document.attributesSource),
      ("government_credential", .bool false), ("live_possession_verified", .bool false), ("predicate_source", .str "birthdate"),
      ("source_verified_at", .num document.verifiedAt), ("trusted_key_id", .str document.trustedKeyId),
      ("verified_at", .num time)]

/-! ## Documents that the verification of evidence admits -/

/-- What a document holds once its evidence was verified: texts of a card file, a trusted key and when it was verified. -/
structure Document.Admitted (self : Document) : Prop where
  name : self.attributes.name.utf8ByteSize ≤ 4096
  address : self.attributes.address.utf8ByteSize ≤ 4096
  birthDate : validDate self.attributes.birthDate
  gender : self.attributes.gender.utf8ByteSize ≤ 4096
  expiryDate : ∀ date ∈ self.attributes.expiryDate, validDate date
  trustedKeyId : self.trustedKeyId.utf8ByteSize ≤ 128
  verifiedAt : self.verifiedAt < 2 ^ 64
  assurance : self.assurance = "issuer_signed_static_data"
  attributesSource : self.attributesSource ∈ ["issuance_base_ef", "input_support_ef"]

end Mikaki.Identity
