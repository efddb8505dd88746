import Mikaki.Identity.ClaimProfile
import Mikaki.Mdoc.Codec

/-!
# Credential queries of a presentation request

A request asks for credentials by format, type and claims, and may group its
queries into sets of alternatives. Every query and every set is checked before
one is selected, whatever credentials are there.
-/

namespace Mikaki.Presentation

open Checks
open Mikaki.Vault (Base64 encode64 decode64)
open Mikaki.Identity (supported)
open Mikaki.Identity.Wallet (orElse)
open Mikaki.Mdoc (docType namespace_)

/-! ## Queries -/

structure Claim where
  path : List String
  intentToRetain : Option Bool
  deriving DecidableEq

structure Meta where
  vctValues : Option (List String)
  doctypeValue : Option String
  deriving DecidableEq

structure Authority where
  kind : String
  values : List String
  deriving DecidableEq

structure Query where
  trustedAuthorities : Option (List Authority)
  id : String
  format : String
  meta_ : Meta
  claims : List Claim
  deriving DecidableEq

structure CredentialSet where
  options : List (List String)
  required : Bool
  deriving DecidableEq

structure Dcql where
  credentials : List Query
  credentialSets : Option (List CredentialSet)
  deriving DecidableEq

/-! ## Reading -/

/-- A field that may be missing, though not `null`. -/
def present {α : Type} (read : Json.Value → Option α) : Option Json.Value → Option (Option α)
  | none => some none
  | some value => (read value).map some

def readBool : Json.Value → Option Bool
  | .bool b => some b
  | _ => none

def readNullable {α : Type} (read : Json.Value → Option α) : Json.Value → Option (Option α)
  | .null => some none
  | value => (read value).map some

def strings (value : Json.Value) : Option (List String) := value.asArr Json.Value.asStr

def Claim.read (value : Json.Value) : Option Claim := do
  let field ← Json.fields ["path", "intent_to_retain"] value
  let path ← (field "path").bind strings
  let intentToRetain ← present (readNullable readBool) (field "intent_to_retain")
  return { path, intentToRetain := intentToRetain.join }

def Meta.read (value : Json.Value) : Option Meta := do
  let field ← Json.fields ["vct_values", "doctype_value"] value
  let vctValues ← present strings (field "vct_values")
  let doctypeValue ← present Json.Value.asStr (field "doctype_value")
  return { vctValues, doctypeValue }

def Authority.read (value : Json.Value) : Option Authority := do
  let field ← Json.fields ["type", "values"] value
  let kind ← (field "type").bind Json.Value.asStr
  let values ← (field "values").bind strings
  return { kind, values }

def presentClaims (value : Json.Value) : Option (List Claim) :=
  (value.asArr Claim.read).filter fun claims => claims.length ≠ 0 ∧ claims.length ≤ 7

def Query.read (value : Json.Value) : Option Query := do
  let field ← Json.fields ["trusted_authorities", "id", "format", "meta", "claims"] value
  let trustedAuthorities ← present (Json.Value.asArr Authority.read) (field "trusted_authorities")
  let id ← (field "id").bind Json.Value.asStr
  let format ← (field "format").bind Json.Value.asStr
  let meta_ ← (field "meta").bind Meta.read
  let claims ← present presentClaims (field "claims")
  return { trustedAuthorities, id, format, meta_, claims := claims.getD [] }

def CredentialSet.read (value : Json.Value) : Option CredentialSet := do
  let field ← Json.fields ["options", "required"] value
  let options ← (field "options").bind (Json.Value.asArr strings)
  let required ← present readBool (field "required")
  return { options, required := required.getD true }

def Dcql.read (value : Json.Value) : Option Dcql := do
  let field ← Json.fields ["credentials", "credential_sets"] value
  let credentials ← (field "credentials").bind (Json.Value.asArr Query.read)
  let credentialSets ← present (Json.Value.asArr CredentialSet.read) (field "credential_sets")
  return { credentials, credentialSets }

/-! ## Checks of a query -/

def unsupportedQuery : String := "unsupported_query"

def unsatisfiedQuery : String := "credential_query_unsatisfied"

def passportFields : List String :=
  ["name_mrz", "issuing_state", "nationality", "birth_date_mrz", "expiry_date_mrz", "sex_mrz"]

def validId (s : String) : Bool :=
  s ≠ "" && decide (s.utf8ByteSize ≤ 64) && (Text.bytes s).all fun b => Text.isAlphanumeric b || b == 45 || b == 95

/-- The linked document and the passport of one issuer. -/
def catalog (vct : String) : List String :=
  let suffix := "/types/linked-document".toList
  if suffix <:+ vct.toList then
    [vct, String.ofList (vct.toList.take (vct.toList.length - suffix.length)) ++ "/types/passport-dg1"]
  else [vct]

def credentialTypeMatches (query : Query) (vcts : List String) : Except String Bool :=
  if query.format = "dc+sd-jwt" then do
    denyIf (query.meta_.doctypeValue ≠ none) unsupportedQuery
    match query.meta_.vctValues with
    | none => return true
    | some types =>
      denyIf (types = [] ∨ types.length > 8 ∨ ∃ t ∈ types, t = "" ∨ t.utf8ByteSize > 1024) unsupportedQuery
      return types.any (· ∈ vcts)
  else if query.format = "mso_mdoc" then do
    denyIf (query.meta_.vctValues ≠ none) unsupportedQuery
    match query.meta_.doctypeValue with
    | none => return true
    | some t =>
      denyIf (t = "" ∨ t.utf8ByteSize > 1024) unsupportedQuery
      return t = docType
  else throw unsupportedQuery

/-- What the paths of the claims `seen` leave for the rest. -/
def validatePaths (format : String) : List (List String) → List Claim → Except String Unit
  | _, [] => .ok ()
  | seen, claim :: claims => do
    denyIf (claim.path ∈ seen ∨ ∃ p ∈ claim.path, p = "" ∨ p.utf8ByteSize > 1024) unsupportedQuery
    denyIf (¬((format = "dc+sd-jwt" ∧ claim.path.length = 1 ∧ claim.intentToRetain = none) ∨
      (format = "mso_mdoc" ∧ claim.path.length = 2))) unsupportedQuery
    validatePaths format (claim.path :: seen) claims

def validateClaimPaths (query : Query) : Except String Unit := validatePaths query.format [] query.claims

/-- The name a claim asks for. -/
def claimName (format : String) (claim : Claim) : Option String :=
  match claim.path with
  | [name] => if format = "dc+sd-jwt" ∧ claim.intentToRetain = none then some name else none
  | [ns, name] => if format = "mso_mdoc" ∧ ns = namespace_ then some name else none
  | _ => none

def fieldsFrom (format : String) : List String → List Claim → Except String (List String × List String)
  | _, [] => .ok ([], [])
  | names, claim :: claims => do
    let name ← orElse unsupportedQuery (claimName format claim)
    denyIf (¬(supported name = true ∨ (format = "dc+sd-jwt" ∧ name ∈ passportFields)) ∨ name ∈ names) unsupportedQuery
    let (fields, retained) ← fieldsFrom format (name :: names) claims
    return (name :: fields, if claim.intentToRetain = some true then name :: retained else retained)

/-- The fields a query discloses, and those of them that the verifier means to keep. -/
def fields (query : Query) : Except String (List String × List String) := fieldsFrom query.format [] query.claims

section
variable [Base64]

def aki (value : String) : Except String (List UInt8) := do
  let bytes ← orElse "invalid_authority_query" (decode64 value)
  denyIf (bytes = [] ∨ bytes.length > 64 ∨ encode64 bytes ≠ value) "invalid_authority_query"
  return bytes

def Authority.validate (authority : Authority) : Except String Unit := do
  denyIf (authority.kind = "" ∨ authority.kind.utf8ByteSize > 64 ∨ authority.values = [] ∨ authority.values.length > 16)
    "invalid_authority_query"
  checkAll authority.values fun value => do
    denyIf (value = "" ∨ value.utf8ByteSize > 1024) "invalid_authority_query"
    if authority.kind = "aki" then discard (aki value)

def validateAuthorities (authorities : List Authority) : Except String Unit := do
  denyIf (authorities = [] ∨ authorities.length > 8) "invalid_authority_query"
  checkAll authorities Authority.validate

/-! ## Selection -/

/-- Claims are read where the type fits; the others are left to the receipt. -/
def checkFields (typeMatches : Bool) (query : Query) : Except String Unit :=
  if typeMatches then discard (fields query) else .ok ()

/-- The checks of one query after those with the names `ids`, and whether its type is among `vcts`. -/
def matchingCredential (vcts ids : List String) (query : Query) : Except String Bool := do
  denyIf (validId query.id = false ∨ query.id ∈ ids ∨ query.claims.length > 7) unsupportedQuery
  let typeMatches ← credentialTypeMatches query vcts
  checkAll query.trustedAuthorities.toList validateAuthorities
  validateClaimPaths query
  checkFields typeMatches query
  return typeMatches

def matchingFrom (vcts : List String) (available : Nat → Bool) : List String → List Query → Except String (List Bool)
  | _, [] => .ok []
  | ids, query :: queries => do
    let typeMatches ← matchingCredential vcts ids query
    let rest ← matchingFrom vcts (fun i => available (i + 1)) (query.id :: ids) queries
    return (typeMatches && available 0) :: rest

def matchingCredentials (dcql : Dcql) (vcts : List String) (available : Option (List Bool)) : Except String (List Bool) := do
  denyIf (∃ a ∈ available, a.length ≠ dcql.credentials.length) unsupportedQuery
  denyIf (dcql.credentials = [] ∨ dcql.credentials.length > 8) unsupportedQuery
  matchingFrom vcts (fun i => available.all fun a => a.getD i false) [] dcql.credentials

def credentialIndex (dcql : Dcql) (name : String) : Except String Nat :=
  orElse unsupportedQuery (dcql.credentials.findIdx? fun query => query.id = name)

def validateOption (dcql : Dcql) : List String → List String → Except String Unit
  | _, [] => .ok ()
  | seen, name :: names => do
    let _ ← credentialIndex dcql name
    denyIf (name ∈ seen) unsupportedQuery
    validateOption dcql (name :: seen) names

def validateSets (dcql : Dcql) (sets : List CredentialSet) : Except String Unit := do
  denyIf (sets = [] ∨ sets.length > 8) unsupportedQuery
  checkAll sets fun set => do
    denyIf (set.options = [] ∨ set.options.length > 8) unsupportedQuery
    checkAll set.options fun option => do
      denyIf (option = [] ∨ option.length > 8) unsupportedQuery
      validateOption dcql [] option

def optionMatches (dcql : Dcql) (option : List String) (matched : List Bool) : Bool :=
  option.all fun name =>
    match credentialIndex dcql name with
    | .ok index => matched.getD index false
    | .error _ => false

/-- The indices of an option that are not selected yet, after those that are. -/
def selectOption (dcql : Dcql) (selected : List Nat) : List String → Except String (List Nat)
  | [] => .ok selected
  | name :: names => do
    let index ← credentialIndex dcql name
    selectOption dcql (if index ∈ selected then selected else selected ++ [index]) names

def selectRequired (dcql : Dcql) (matched : List Bool) (selected : List Nat) : List CredentialSet → Except String (List Nat)
  | [] => .ok selected
  | set :: sets => do
    let option ← orElse unsatisfiedQuery (set.options.find? fun option => optionMatches dcql option matched)
    let selected ← selectOption dcql selected option
    selectRequired dcql matched selected sets

def selectSets (dcql : Dcql) (sets : List CredentialSet) (matched : List Bool) : Except String (List Nat) := do
  let required := sets.filter (·.required)
  checkAll required fun set =>
    denyIf ((set.options.any fun option => optionMatches dcql option matched) = false) unsatisfiedQuery
  let selected ← selectRequired dcql matched [] required
  if required = [] then
    let option ← orElse unsatisfiedQuery
      ((sets.flatMap (·.options)).find? fun option => optionMatches dcql option matched)
    let indices ← collect option (credentialIndex dcql)
    return selected ++ indices
  else return selected

def selectAvailableTypes (dcql : Dcql) (vcts : List String) (available : Option (List Bool)) : Except String (List Nat) := do
  let matched ← matchingCredentials dcql vcts available
  match dcql.credentialSets with
  | none =>
    denyIf ((matched.any fun m => !m) = true) unsatisfiedQuery
    return List.range matched.length
  | some sets =>
    validateSets dcql sets
    selectSets dcql sets matched

def selectAvailable (dcql : Dcql) (vct : String) (available : Option (List Bool)) : Except String (List Nat) :=
  selectAvailableTypes dcql [vct] available

def select (dcql : Dcql) (vct : String) : Except String (List Nat) := selectAvailable dcql vct none

end

end Mikaki.Presentation
