import Mikaki.Identity.ClaimProfile
import Mikaki.Lib.Sha
import Mikaki.Mdoc.Codec

/-!
# Issuing an mdoc and verifying its receipt

The issuer signs the digests of the items it sends. A receipt is accepted when
the signature is the issuer's, the holder is the right one, the validity runs,
and every item has the digest that was signed for it.
-/

namespace Mikaki.Mdoc

open Checks Cbor
open Mikaki.Vault (Base64 encode64 decode64)
open Mikaki.Identity
open Mikaki.Identity.Wallet (orElse orElse_eq_ok PublicJwk Claim)

/-! ## Parameters -/

/-- What the profile of a certificate is checked on. -/
structure Certificate where
  publicKey : PublicJwk
  notBefore : Nat
  notAfter : Nat
  extensionIds : Option (List String)
  /-- Digital signature, and signing of certificates. -/
  keyUsage : Option (Bool × Bool)
  extendedKeyUsage : Option (List String)
  /-- Whether it is an authority. -/
  basicConstraints : Option Bool
  deriving DecidableEq

/-- P-256 signatures, X.509 certificates, dates and JSON in CBOR. -/
class Primitives (Key Trust : outParam Type) extends Wallet.Formats Trust, Ciborium, Calendar where
  publicJwk : Key → PublicJwk
  sign : Key → List UInt8 → List UInt8
  isSignature : List UInt8 → Bool
  verifies : PublicJwk → List UInt8 → List UInt8 → Bool
  fromDer : List UInt8 → Option Certificate
  jsonWriter : Json.Value → Option (List UInt8)
  jsonReader : List UInt8 → Option Json.Value

abbrev Salt := { b : List UInt8 // b.length = 16 }

/-! ## Values -/

def map (entries : List (String × Value)) : Value := .map (entries.map fun p => (.text p.1, p.2))

def asBytes : Value → Option (List UInt8)
  | .bytes b => some b
  | _ => none

def asText : Value → Option String
  | .text s => some s
  | _ => none

def asArray : Value → Option (List Value)
  | .array xs => some xs
  | _ => none

def asMap : Value → Option (List (Value × Value))
  | .map ms => some ms
  | _ => none

def get (v : Value) (k : String) : Except String Value :=
  match v with
  | .map ms => orElse "invalid_mdoc" ((ms.find? fun m => m.1 = .text k).map Prod.snd)
  | _ => .error "invalid_mdoc"

def numeric : Value → Except String Nat
  | .int n => if 0 ≤ n ∧ n < 2 ^ 64 then .ok n.toNat else .error "invalid_mdoc"
  | _ => .error "invalid_mdoc"

section
variable [Ciborium]

def tag (v : Value) : Except String Value := do
  let b ← encode v
  return .tag 24 (.bytes b)

def embedded (v : Value) : Except String Value :=
  match v with
  | .tag 24 b => do
    let b ← orElse "invalid_mdoc" (asBytes b)
    decode b
  | _ => .error "invalid_mdoc"

def protected_ : Except String (List UInt8) := encode (.map [(.int 1, .int (-7))])

def signatureInput (payload : List UInt8) : Except String (List UInt8) := do
  let header ← protected_
  encode (.array [.text "Signature1", .bytes header, .bytes [], .bytes payload])

def sign1 (payload unprotected : Value) (sig : List UInt8) : Except String Value := do
  denyIf (sig.length ≠ 64) "invalid_mdoc"
  let header ← protected_
  return .array [.bytes header, unprotected, payload, .bytes sig]

end

/-! ## Dates -/

/-- The `k` low digits of `n`. -/
def digits : Nat → Nat → List Char
  | 0, _ => []
  | k + 1, n => Char.ofNat (48 + n / 10 ^ k % 10) :: digits k n

/-- `\x7b:0k\x7d` -/
def padded (k n : Nat) : List Char := if n < 10 ^ k then digits k n else Nat.toDigits 10 n

/-- `str::parse::<u16>`. -/
def parseU16 (cs : List Char) : Option Nat :=
  let ds := if cs.head? = some '+' then cs.tail else cs
  let n := ds.foldl (fun n c => n * 10 + (c.toNat - 48)) 0
  if ds ≠ [] ∧ ds.all Char.isDigit ∧ n < 65536 then some n else none

section
variable [Calendar]

def dateText (t : DateTime) : List Char :=
  padded 4 t.year ++ '-' :: padded 2 t.month ++ '-' :: padded 2 t.day ++ 'T' :: padded 2 t.hour ++ ':' :: padded 2 t.minutes ++
    ':' :: padded 2 t.seconds ++ ['Z']

def date (now : Nat) : Except String Value := do
  let t ← orElse "invalid_mdoc" (Calendar.fromUnix now)
  return .tag 0 (.text (String.ofList (dateText t)))

def timestamp (v : Value) : Except String Nat :=
  match v with
  | .tag 0 v => do
    let s ← orElse "invalid_mdoc" (asText v)
    let cs := s.toList
    denyIf (s.utf8ByteSize ≠ 20 ∨ (cs.all fun c => c.toNat < 128) = false ∨ cs[4]? ≠ some '-' ∨ cs[7]? ≠ some '-' ∨
      cs[10]? ≠ some 'T' ∨ cs[13]? ≠ some ':' ∨ cs[16]? ≠ some ':' ∨ cs[19]? ≠ some 'Z') "invalid_mdoc"
    let part (a b : Nat) : Except String Nat := orElse "invalid_mdoc" (parseU16 ((cs.take b).drop a))
    let year ← part 0 4
    let month ← part 5 7
    let day ← part 8 10
    let hour ← part 11 13
    let minutes ← part 14 16
    let seconds ← part 17 19
    orElse "invalid_mdoc" (Calendar.toUnix ⟨year, month, day, hour, minutes, seconds⟩)
  | _ => .error "invalid_mdoc"

end

section
variable {Key Trust : Type} [Primitives Key Trust]

/-! ## Certificates -/

def validateCertificate (cert : List UInt8) (key : PublicJwk) (now : Nat) : Except String Unit := do
  denyIf (cert.length > 4096) "invalid_mdoc_certificate"
  let c ← orElse "invalid_mdoc_certificate" (Primitives.fromDer cert)
  denyIf (c.publicKey ≠ key ∨ now < c.notBefore ∨ now ≥ c.notAfter) "invalid_mdoc_certificate"
  denyIf (c.extensionIds.all (fun ids => ids.Nodup) = false ∨ c.extensionIds = none) "invalid_mdoc_certificate"
  let ku ← orElse "invalid_mdoc_certificate" c.keyUsage
  let eku ← orElse "invalid_mdoc_certificate" c.extendedKeyUsage
  let ca ← orElse "invalid_mdoc_certificate" c.basicConstraints
  denyIf (ku.1 = false ∨ ku.2 = true ∨ ca = true ∨ "1.0.18013.5.1.2" ∉ eku) "invalid_mdoc_certificate"

def certificateValidUntil (cert : List UInt8) (issuer : PublicJwk) (now : Nat) : Except String Nat := do
  validateCertificate cert issuer now
  let c ← orElse "invalid_mdoc_certificate" (Primitives.fromDer cert)
  return c.notAfter

def coseKey (jwk : PublicJwk) : Except String Value := do
  let _ ← jwk.verifyingKey
  let x ← orElse "invalid_key" (decode64 jwk.x)
  let y ← orElse "invalid_key" (decode64 jwk.y)
  return .map [(.int 1, .int 2), (.int (-1), .int 1), (.int (-2), .bytes x), (.int (-3), .bytes y)]

/-! ## Issuing -/

def elementValue (name : String) (value : Json.Value) : Except String Value :=
  match value with
  | .bool b => .ok (.bool b)
  | value => do
    let s ← orElse "invalid_mdoc" (if name = "address" then
      match value with
      | .obj ms => (ms.lookup "formatted").bind Json.Value.asStr
      | _ => none
    else value.asStr)
    return .text s

/-- One item and its digest, from the claim of that index. -/
def issueItem (i : Nat) (name : String) (value : Json.Value) (salt : Salt) : Except String (Value × (Value × Value)) := do
  let value ← elementValue name value
  let item ← tag (map [("digestID", .int i), ("random", .bytes salt.1), ("elementIdentifier", .text name), ("elementValue", value)])
  let b ← encode item
  return (item, (.int i, .bytes (Sha.sha256 b)))

def issueItems : Nat → List ((String × Json.Value) × Salt) → Except String (List (Value × (Value × Value)))
  | _, [] => .ok []
  | i, ((name, value), salt) :: claims => do
    let item ← issueItem i name value salt
    let items ← issueItems (i + 1) claims
    return item :: items

/-- What is said of the evidence beside an age predicate. -/
def provenance (document : Document) (time : Nat) : Except String Value := do
  let encoded ← orElse "invalid_mdoc" (Primitives.jsonWriter (.obj (evidenceMetadata document (some time))))
  let v ← decode encoded
  return match v with
    | .map ms => .map (ms ++ [(.text "document_type", .text document.attributes.documentType.text)])
    | v => v

def evidenceField (predicates : Bool) (document : Document) (time : Nat) : Except String (List (String × Value)) :=
  if predicates then do
    let v ← provenance document time
    return [("mikakiEvidence", v)]
  else .ok []

def validityInfo (now expiresAt : Nat) : Except String Value := do
  let signed ← date now
  let validUntil ← date expiresAt
  return map [("signed", signed), ("validFrom", signed), ("validUntil", validUntil)]

def issueWithProfile (key : Key) (cert : List UInt8) (holder : PublicJwk) (document : Document) (validity : Validity)
    (salts : List Salt) (profile : List Claim) : Except String String := do
  let now := validity.issuedAt
  let end_ ← certificateValidUntil cert (Primitives.publicJwk key) now
  let validity ← validity.limit document.verified end_
  let values := profileValues profile document validity.evaluatedAt
  denyIf (values = []) "no_issuable_claims"
  let predicates := values.any fun p => isAgeClaim p.1
  denyIf (values.length ≠ salts.length) "invalid_salts"
  let items ← issueItems 0 (values.zip salts)
  let deviceKey ← coseKey holder
  let info ← validityInfo now validity.expiresAt
  let evidence ← evidenceField predicates document validity.evaluatedAt
  let mso ← tag (map ([("version", .text "1.0"), ("digestAlgorithm", .text "SHA-256"),
    ("valueDigests", map [(namespace_, .map (items.map Prod.snd))]), ("deviceKeyInfo", map [("deviceKey", deviceKey)]),
    ("docType", .text docType), ("validityInfo", info)] ++ evidence))
  let payload ← encode mso
  let input ← signatureInput payload
  let auth ← sign1 (.bytes payload) (.map [(.int 33, .bytes cert)]) (Primitives.sign key input)
  let signed ← encode (map [("nameSpaces", map [(namespace_, .array (items.map Prod.fst))]), ("issuerAuth", auth)])
  return encode64 signed

/-! ## Verifying -/

structure Validated where
  holder : PublicJwk
  issuerSigned : Value
  values : List (String × Json.Value)
  expiresAt : Nat
  evidence : Option Json.Value

/-- The issuer's part of a credential, once its signature is verified. -/
def verifyAuth (signed : Value) (issuer : PublicJwk) (now : Nat) : Except String (List UInt8 × Value) := do
  let auth ← get signed "issuerAuth"
  match asArray auth with
  | some [protect, unprotected, payload, signature] =>
    let header ← protected_
    denyIf (protect ≠ .bytes header) "invalid_mdoc"
    match asMap unprotected with
    | some [(label, cert)] =>
      denyIf (label ≠ .int 33) "invalid_mdoc_certificate"
      let cert ← orElse "invalid_mdoc_certificate" (asBytes cert)
      validateCertificate cert issuer now
      let payload ← orElse "invalid_mdoc" (asBytes payload)
      let signature ← orElse "invalid_mdoc" (asBytes signature)
      denyIf (Primitives.isSignature signature = false) "invalid_mdoc"
      let _ ← issuer.verifyingKey
      let input ← signatureInput payload
      denyIf (Primitives.verifies issuer input signature = false) "invalid_mdoc_signature"
      let outer ← decode payload
      let mso ← embedded outer
      return (cert, mso)
    | _ => throw "invalid_mdoc"
  | _ => throw "invalid_mdoc"

def verifyHeader (mso : Value) (holder : PublicJwk) : Except String Unit := do
  let version ← get mso "version"
  denyIf (version ≠ .text "1.0") "invalid_mdoc"
  let algorithm ← get mso "digestAlgorithm"
  denyIf (algorithm ≠ .text "SHA-256") "invalid_mdoc"
  let type ← get mso "docType"
  denyIf (type ≠ .text docType) "invalid_mdoc"
  let deviceKey ← get mso "deviceKeyInfo" >>= fun info => get info "deviceKey"
  let key ← coseKey holder
  denyIf (deviceKey ≠ key) "invalid_mdoc"

/-- The end of the validity of `mso`. -/
def verifyValidity (mso : Value) (now : Nat) : Except String Nat := do
  let validity ← get mso "validityInfo"
  let signedAt ← get validity "signed" >>= timestamp
  let from_ ← get validity "validFrom" >>= timestamp
  let exp ← get validity "validUntil" >>= timestamp
  denyIf (from_ ≠ signedAt ∨ signedAt > min (now + 30) (2 ^ 64 - 1) ∨ exp ≤ now ∨ exp ≤ signedAt ∨
    exp > min (signedAt + 300) (2 ^ 64 - 1)) "invalid_mdoc"
  return exp

def readValue (name : String) (value : Value) : Option Json.Value :=
  if isAgeClaim name then
    match value with
    | .bool b => some (.bool b)
    | _ => none
  else (asText value).map .str

/-- The index, the name and the value of an item, after those with the indices `ids` and the names `names`. -/
def verifyItem (digests : List (Value × Value)) (ids : List Nat) (names : List String) (item : Value) :
    Except String (Nat × String × Json.Value) := do
  let inner ← embedded item
  let id ← get inner "digestID" >>= numeric
  denyIf (id > 6 ∨ id ∈ ids) "invalid_mdoc"
  let digest ← orElse "invalid_mdoc" ((digests.find? fun d => d.1 = .int id).map Prod.snd)
  let b ← encode item
  denyIf (digest ≠ .bytes (Sha.sha256 b)) "invalid_mdoc_digest"
  let random ← get inner "random"
  denyIf ((asBytes random).all (fun b => b.length < 16) = true) "invalid_mdoc_digest"
  let name ← get inner "elementIdentifier" >>= fun v => orElse "invalid_mdoc" (asText v)
  denyIf (supported name = false ∨ name ∈ names) "invalid_mdoc"
  let value ← get inner "elementValue"
  let value ← orElse "invalid_mdoc" (readValue name value)
  return (id, name, value)

/-- The values of the items, after those with the indices `ids` and the values `values`. -/
def verifyItems (digests : List (Value × Value)) : List Nat → List (String × Json.Value) → List Value →
    Except String (List (String × Json.Value))
  | _, values, [] => .ok values
  | ids, values, item :: items => do
    let (id, name, value) ← verifyItem digests ids (values.map Prod.fst) item
    verifyItems digests (id :: ids) (values ++ [(name, value)]) items

def isStr (v : Option Json.Value) (s : String) : Bool := (v.bind Json.Value.asStr) == some s

def isFalse : Option Json.Value → Bool
  | some (.bool false) => true
  | _ => false

/-- `e[name]` -/
def member (e : Json.Value) (name : String) : Option Json.Value :=
  match e with
  | .obj ms => ms.lookup name
  | _ => none

def provenanceHolds (e : Json.Value) : Bool :=
  isStr (member e "assurance") "issuer_signed_static_data" && isFalse (member e "live_possession_verified") &&
    isFalse (member e "government_credential") && isStr (member e "predicate_source") "birthdate" &&
    ((member e "verified_at").bind (Json.Value.asNum (2 ^ 64))).isSome

def readEvidence (mso : Value) : Except String (Option Json.Value) :=
  match get mso "mikakiEvidence" with
  | .ok v => do
    let b ← encode v
    let e ← orElse "invalid_mdoc" (Primitives.jsonReader b)
    return some e
  | .error _ => .ok none

def checkDocumentExpiry (values : List (String × Json.Value)) (expiresAt : Nat) : Except String Unit :=
  match values.lookup "document_expiry_date" with
  | none => .ok ()
  | some value => do
    let date ← orElse "invalid_credential" value.asStr
    let e ← orElse "invalid_credential" (dateEnd date)
    denyIf (expiresAt > e) "invalid_credential"

def verifyReceipt (credential : String) (issuer holder : PublicJwk) (now : Nat) : Except String Validated := do
  denyIf (credential.utf8ByteSize > 43000) "invalid_mdoc"
  let b ← orElse "invalid_mdoc" (decode64 credential)
  let signed ← decode b
  let (cert, mso) ← verifyAuth signed issuer now
  verifyHeader mso holder
  let exp ← verifyValidity mso now
  validateCertificate cert issuer (exp - 1)
  let digests ← get mso "valueDigests" >>= fun v => get v namespace_ >>= fun v => orElse "invalid_mdoc" (asMap v)
  let spaces ← get signed "nameSpaces"
  match asMap spaces with
  | some [(ns, items)] =>
    denyIf (ns ≠ .text namespace_) "invalid_mdoc"
    let items ← orElse "invalid_mdoc" (asArray items)
    denyIf (¬(1 ≤ items.length ∧ items.length ≤ 7) ∨ items.length ≠ digests.length) "invalid_mdoc"
    let values ← verifyItems digests [] [] items
    let evidence ← readEvidence mso
    denyIf ((values.any fun p => isAgeClaim p.1) = true ∧ evidence.any provenanceHolds = false) "invalid_mdoc"
    (checkDocumentExpiry values exp).mapError fun _ => "invalid_mdoc"
    return { holder, issuerSigned := signed, values, expiresAt := exp, evidence }
  | _ => throw "invalid_mdoc"

end

end Mikaki.Mdoc
