import Mikaki.Identity.Certificate

/-!
# Passport evidence

Signed data of a passport is verified against pinned anchors of its country and
the revocation lists of a policy. The signed object itself is given by what its
verification yields; its certificate, the anchors and the lists are checked here.
-/

namespace Mikaki.Identity.Passport

open Checks X509
open Wallet (orElse)
open Certificate (mapError)

def maxAge : Nat := 90 * 86400

inductive State where
  | notChecked
  | unsupported
  | invalid
  | consistent
  deriving DecidableEq

structure Anchor where
  issuer : Bytes
  der : Bytes
  sha256 : String

/-- `JPN` -/
def jpn : Bytes := [0x4a, 0x50, 0x4e]

/-- `ANCHORS`, the files of the country with their digests. -/
class Pinned where
  anchors : List Anchor
  japanese : ∀ a ∈ anchors, a.issuer = jpn

/-- The signed object, and signatures of certificates and lists. -/
class Signed where
  /-- The certificate that has signed the data group. -/
  verifyInner : Bytes → Bytes → Except State X509.Certificate
  verifySigned : X509.Certificate → AlgorithmIdentifier → Bytes → Bytes → Except State Unit

def checkTrue (value : Prop) [Decidable value] : Except String Unit := denyIf (¬value) "invalid_certificate"

def mapCrypto (state : State) : String := if state = .unsupported then "unsupported_certificate" else "invalid_certificate"

/-- `deadline` -/
def deadline (cert : X509.Certificate) (now : Nat) : Except String Nat := do
  checkTrue (cert.notBefore < cert.notAfter)
  denyIf (now < cert.notBefore) "certificate_not_yet_valid"
  denyIf (now ≥ cert.notAfter) "certificate_expired"
  return cert.notAfter

section
variable [Der] [P256] [Texts] [Webpki] [Pinned] [Signed]

def parseCertificate (bytes : Bytes) : Except String X509.Certificate := do
  checkTrue (bytes ≠ [] ∧ bytes.length ≤ 4096)
  let cert ← orElse "invalid_certificate" (Der.certificate bytes)
  let der ← orElse "invalid_certificate" cert.der
  checkTrue (der = bytes)
  return cert

def identifier (bytes : Bytes) : Except String Bytes := do
  let id ← orElse "invalid_certificate" (Der.octetString bytes)
  checkTrue (1 ≤ id.length ∧ id.length ≤ 64)
  return id

def authority (bytes : Bytes) : Except String Bytes := do
  let a ← orElse "invalid_certificate" (Der.authorityKeyIdentifier bytes)
  checkTrue (a.authorityCertIssuer.isNone = true ∧ a.authorityCertSerialNumber.isNone = true)
  let id ← orElse "invalid_certificate" a.keyIdentifier
  checkTrue (1 ≤ id.length ∧ id.length ≤ 64)
  return id

/-! ## Profiles -/

structure Profile where
  ski : Option Bytes
  aki : Option Bytes

/-- What is found in the extensions so far. -/
structure Found extends Profile where
  ids : List String
  usage : Bool
  basic : Bool

def checkExtension (ca : Bool) (f : Found) (e : Extension) : Except String Found := do
  checkTrue (e.extnId ∉ f.ids)
  let f := { f with ids := e.extnId :: f.ids }
  match e.extnId with
  | "2.5.29.14" =>
    let id ← identifier e.extnValue
    return { f with ski := some id }
  | "2.5.29.35" =>
    let id ← authority e.extnValue
    return { f with aki := some id }
  | "2.5.29.19" =>
    let b ← orElse "invalid_certificate" (Der.basicConstraints e.extnValue)
    checkTrue (b.ca = ca ∧ (ca = true ∨ b.pathLenConstraint.isNone = true))
    return { f with basic := true }
  | "2.5.29.15" =>
    let k ← orElse "invalid_certificate" (Der.keyUsage e.extnValue)
    checkTrue (if ca then (k.keyCertSign && k.crlSign) = true else (k.digitalSignature && !k.keyCertSign && !k.crlSign) = true)
    return { f with usage := true }
  -- What restricts a purpose or a path is not ignored.
  | "2.5.29.30" | "2.5.29.33" | "2.5.29.36" | "2.5.29.37" | "2.5.29.54" => throw "unsupported_certificate"
  | _ => if e.critical then throw "unsupported_certificate" else return f

def checkExtensions (ca : Bool) : Found → List Extension → Except String Found
  | f, [] => .ok f
  | f, e :: es => do
    let f ← checkExtension ca f e
    checkExtensions ca f es

def profile (cert : X509.Certificate) (ca : Bool) : Except String Profile := do
  checkTrue (cert.version = .v3 ∧ cert.signature = cert.signatureAlgorithm)
  let f ← checkExtensions ca ⟨⟨none, none⟩, [], false, false⟩ (cert.extensions.getD [])
  checkTrue (f.usage = true ∧ (ca = false ∨ (f.basic = true ∧ f.ski.isSome = true)))
  return f.toProfile

/-! ## Anchors -/

def hexDigit (n : Nat) : Char := "0123456789abcdef".toList.getD n '0'

/-- `{:02x}` of each byte. -/
def hex (bytes : Bytes) : String := String.ofList (bytes.flatMap fun b => [hexDigit (b.toNat / 16), hexDigit (b.toNat % 16)])

/-- A signature of what is encoded, under the key of a certificate. -/
def checkSigned (signer : X509.Certificate) (algorithm : AlgorithmIdentifier) (signature tbs : Option Bytes) : Except String Unit := do
  let signature ← orElse "invalid_certificate" signature
  let tbs ← orElse "invalid_certificate" tbs
  mapError mapCrypto (Signed.verifySigned signer algorithm signature tbs)

def anchor (a : Anchor) : Except String X509.Certificate := do
  denyIf (hex (Sha.sha256 a.der) ≠ a.sha256) "policy_invalid"
  let cert ← parseCertificate a.der
  let p ← profile cert true
  checkTrue (cert.issuer = cert.subject)
  checkTrue (p.aki.isNone = true ∨ p.aki = p.ski)
  checkSigned cert cert.signatureAlgorithm cert.signatureBytes cert.tbs
  return cert

def anchors : Except String (List X509.Certificate) := collect Pinned.anchors anchor

/-! ## Revocation -/

/-- The list of an issuer, which must be the only one. -/
def selectCrl (issuer : Name) : Option CertificateList → List Bytes → Except String (Option CertificateList)
  | selected, [] => .ok selected
  | selected, b :: rest => do
    denyIf (b = [] ∨ b.length > 65536) "invalid"
    let crl ← orElse "invalid" (Der.certificateList b)
    let der ← orElse "invalid" crl.der
    denyIf (der ≠ b) "invalid"
    if crl.issuer = issuer then
      denyIf (selected.isSome = true) "invalid"
      selectCrl issuer (some crl) rest
    else selectCrl issuer selected rest

/-- The extensions of a list: what is found of its key's identifier, and whether it has a number. -/
def crlExtensions : List String → Option Bytes → Bool → List Extension → Except String (Option Bytes × Bool)
  | _, aki, number, [] => .ok (aki, number)
  | ids, aki, number, e :: es => do
    denyIf (e.extnId ∈ ids ∨ e.critical = true) "invalid"
    match e.extnId with
    | "2.5.29.35" =>
      let id ← mapError (fun _ => "invalid") (authority e.extnValue)
      crlExtensions (e.extnId :: ids) (some id) number es
    | "2.5.29.20" =>
      let n ← orElse "invalid" (Der.crlNumber e.extnValue)
      denyIf (n.length > 20) "invalid"
      crlExtensions (e.extnId :: ids) aki true es
    | "2.5.29.27" | "2.5.29.28" | "2.5.29.46" => throw "unsupported"
    | _ => crlExtensions (e.extnId :: ids) aki number es

/-- The anchor that signs a list, which must be the only one. -/
def selectSigner (issuer : Name) (aki : Bytes) : Option X509.Certificate → List X509.Certificate → Except String (Option X509.Certificate)
  | signer, [] => .ok signer
  | signer, ca :: rest => do
    if ca.subject = issuer then
      let p ← mapError (fun _ => "invalid") (profile ca true)
      if p.ski = some aki then
        denyIf (signer.isSome = true) "invalid"
        selectSigner issuer aki (some ca) rest
      else selectSigner issuer aki signer rest
    else selectSigner issuer aki signer rest

def checkEntryExtension (ids : List String) (e : Extension) : Except String Unit := do
  denyIf (e.extnId ∈ ids ∨ e.critical = true ∨ e.extnId = "2.5.29.29") "unsupported"
  if e.extnId = "2.5.29.21" then
    let (tag, value) ← orElse "invalid" (Der.any e.extnValue)
    denyIf (tag ≠ .enumerated ∨ value.length ≠ 1 ∨ value.headD 0 ∉ ([0, 1, 2, 3, 4, 5, 6, 9, 10] : Bytes)) "unsupported"

def checkEntryExtensions : List String → List Extension → Except String Unit
  | _, [] => .ok ()
  | ids, e :: es => do
    checkEntryExtension ids e
    checkEntryExtensions (e.extnId :: ids) es

def checkEntries (start : Nat) : List Bytes → List RevokedCertificate → Except String Unit
  | _, [] => .ok ()
  | serials, entry :: entries => do
    denyIf (entry.serialNumber ∈ serials ∨ entry.revocationDate > start) "invalid"
    checkEntryExtensions [] (entry.entryExtensions.getD [])
    checkEntries start (entry.serialNumber :: serials) entries

/-- What an invalid signature of a list is called. -/
def crlState (state : State) : String := if state = .unsupported then "unsupported" else "invalid"

/-- The list of an issuer with its signer, but for the time. -/
def crlOf (issuer : Name) (roots : List X509.Certificate) (bytes : List Bytes) : Except String (CertificateList × X509.Certificate) := do
  denyIf (bytes.length > 8 ∨ (bytes.map List.length).sum > 262144) "invalid"
  let selected ← selectCrl issuer none bytes
  let crl ← orElse "missing" selected
  denyIf (crl.version ≠ .v2 ∨ crl.signature ≠ crl.signatureAlgorithm) "invalid"
  let (aki, number) ← crlExtensions [] none false (crl.crlExtensions.getD [])
  let aki ← orElse "invalid" aki
  denyIf (number = false) "invalid"
  let signer ← selectSigner crl.issuer aki none roots
  let signer ← orElse "invalid" signer
  return (crl, signer)

/-- The window of a list; its end is the first of its next update and its greatest age. -/
def crlWindow (crl : CertificateList) (now : Nat) : Except String Nat := do
  let nextUpdate ← orElse "invalid" crl.nextUpdate
  denyIf (nextUpdate ≤ crl.thisUpdate) "invalid"
  denyIf (crl.thisUpdate > now) "not_yet_valid"
  denyIf (now ≥ nextUpdate ∨ now ≥ saturatingAdd crl.thisUpdate maxAge) "stale"
  return min nextUpdate (saturatingAdd crl.thisUpdate maxAge)

/-- A list that is valid now, and its end. -/
def currentCrl (issuer : Name) (roots : List X509.Certificate) (bytes : List Bytes) (now : Nat) : Except String (CertificateList × Nat) := do
  let (crl, signer) ← crlOf issuer roots bytes
  let signerEnd ← mapError (fun _ => "invalid") (deadline signer now)
  let signature ← orElse "invalid" crl.signatureBytes
  let tbs ← orElse "invalid" crl.tbs
  mapError crlState (Signed.verifySigned signer crl.signatureAlgorithm signature tbs)
  let crlEnd ← crlWindow crl now
  denyIf ((crl.revokedCertificates.getD []).length > 2048) "unsupported"
  checkEntries crl.thisUpdate [] (crl.revokedCertificates.getD [])
  return (crl, min crlEnd signerEnd)

def revocation (cert root : X509.Certificate) (roots : List X509.Certificate) (bytes : List Bytes) (now : Nat) : Except String (String × Nat) := do
  let (crl, crlEnd) ← currentCrl cert.issuer roots bytes now
  let revoked := (crl.revokedCertificates.getD []).any fun e => e.serialNumber == cert.serialNumber || e.serialNumber == root.serialNumber
  return (if revoked then "revoked" else "good", crlEnd)

/-! ## Trust -/

/-- The anchor of a certificate, which must be the only one. -/
def select (cert : X509.Certificate) (aki : Bytes) : Option X509.Certificate → List X509.Certificate → Except String (Option X509.Certificate)
  | selected, [] => .ok selected
  | selected, root :: rest => do
    let r ← profile root true
    if cert.issuer = root.subject ∧ r.ski = some aki then
      denyIf (selected.isSome = true) "policy_invalid"
      select cert aki (some root) rest
    else select cert aki selected rest

/-- The anchor of a certificate among the roots. -/
def anchorOf (cert : X509.Certificate) (roots : List X509.Certificate) : Except String X509.Certificate := do
  denyIf (roots = []) "unknown_issuer"
  let p ← profile cert false
  let aki ← orElse "invalid_certificate" p.aki
  let selected ← select cert aki none roots
  orElse "unknown_issuer" selected

def evaluate (cert : X509.Certificate) (roots : List X509.Certificate) (crls : List Bytes) (now : Nat) : Except String (String × Nat) := do
  let root ← anchorOf cert roots
  let rootEnd ← deadline root now
  let certEnd ← deadline cert now
  checkSigned root cert.signatureAlgorithm cert.signatureBytes cert.tbs
  match revocation cert root roots crls now with
  | .ok (state, crlEnd) => return (state, min (min rootEnd certEnd) crlEnd)
  | .error reason => return (reason, min rootEnd certEnd)

structure Report where
  state : State
  checkedDataGroups : List Nat
  issuerTrust : String
  revocation : String
  checkedAt : Option Nat
  validUntil : Option Nat

def Report.new (state : State) : Report :=
  { state, checkedDataGroups := if state = .consistent then [1] else [], issuerTrust := "not_configured", revocation := "not_checked"
    checkedAt := none, validUntil := none }

/-- The anchors of a country. -/
def candidates (issuer : Bytes) : Except String (List X509.Certificate) := do
  let roots ← anchors
  return ((Pinned.anchors.zip roots).filter fun p => p.1.issuer = issuer).map Prod.snd

def check (cert : X509.Certificate) (issuer : Bytes) (crls : List Bytes) (now : Nat) (report : Report) : Report :=
  let report := { report with checkedAt := some now }
  match candidates issuer >>= fun roots => evaluate cert roots crls now with
  | .ok (revocation, limit) => { report with issuerTrust := "csca_verified", revocation, validUntil := some limit }
  | .error reason => { report with issuerTrust := reason }

/-- The anchors that are valid now; each must be under a list, and not revoked. -/
def untilOf (roots : List X509.Certificate) (crls : List Bytes) (now : Nat) : Option Nat → List X509.Certificate → Except String (Option Nat)
  | limit, [] => .ok limit
  | limit, root :: rest =>
    match deadline root now with
    | .error _ => untilOf roots crls now limit rest
    | .ok rootEnd => do
      let (state, crlEnd) ← revocation root root roots crls now
      denyIf (state ≠ "good") "revoked"
      untilOf roots crls now (some ((limit.map fun u => min u (min rootEnd crlEnd)).getD (min rootEnd crlEnd))) rest

def policyValidUntil (crls : List Bytes) (now : Nat) : Except String Nat := do
  let roots ← anchors
  let limit ← untilOf roots crls now none roots
  orElse "certificate_unavailable" limit

/-! ## The machine-readable zone -/

structure Dg1Claims where
  nameMrz : String
  issuingState : String
  nationality : String
  birthDateMrz : String
  expiryDateMrz : String
  sexMrz : String

def isUpper (b : UInt8) : Bool := 65 ≤ b && b ≤ 90

def isDigit (b : UInt8) : Bool := 48 ≤ b && b ≤ 57

/-- The filler. -/
def filler : UInt8 := 60

def weight (i : Nat) : Nat := [7, 3, 1].getD (i % 3) 0

/-- The digit that checks a field. -/
def checkDigit (bytes : Bytes) : UInt8 :=
  let sum := (bytes.zipIdx.map fun (b, i) => (if isDigit b then b.toNat - 48 else if isUpper b then b.toNat - 65 + 10 else 0) * weight i).sum
  48 + (sum % 10).toUInt8

def date (raw : Bytes) : Bool :=
  if raw.length ≠ 6 ∨ raw.all isDigit = false then false
  else
    let n (i : Nat) : Nat := (raw.getD i 0 - 48).toNat * 10 + (raw.getD (i + 1) 0).toNat - 48
    let days :=
      if n 2 ∈ [1, 3, 5, 7, 8, 10, 12] then 31
      else if n 2 ∈ [4, 6, 9, 11] then 30
      else if n 2 = 2 then if n 0 % 4 = 0 then 29 else 28
      else 0
    decide (1 ≤ n 4 ∧ n 4 ≤ days)

/-- A part of a line, from one index to another. -/
def part (line : Bytes) (i j : Nat) : Bytes := (line.take j).drop i

def letters (s : Bytes) : Bool := s.all fun b => isUpper b || b == filler

/-- The conditions on the two lines. -/
def wellFormed (mrz line : Bytes) : Bool :=
  (mrz.all fun b => isUpper b || isDigit b || b == filler) && mrz.head? == some 80 && letters (part mrz 1 5) && letters (part mrz 5 44) &&
    letters (part line 10 13) && date (part line 13 19) && date (part line 21 27) && (line.getD 20 0 == 77 || line.getD 20 0 == 70 || line.getD 20 0 == filler) &&
    checkDigit (part line 0 9) == line.getD 9 0 && checkDigit (part line 13 19) == line.getD 19 0 &&
    checkDigit (part line 21 27) == line.getD 27 0 &&
    (checkDigit (part line 28 42) == line.getD 42 0 || (line.getD 42 0 == filler && (part line 28 42).all (· == filler))) &&
    checkDigit (part line 0 10 ++ part line 13 20 ++ part line 21 43) == line.getD 43 0

/-- Text of bytes that are ASCII. -/
def text (s : Bytes) : String := String.ofList (s.map fun b => Char.ofNat b.toNat)

/-- The names between fillers. -/
def nameOf (names : Bytes) : Bytes := (List.intersperse [32] ((names.splitOn filler).filter fun s => !s.isEmpty)).flatten

def claims (dg1 : Bytes) : Option Dg1Claims := do
  guard (dg1.length = 93 ∧ dg1.take 5 = [0x61, 91, 0x5f, 0x1f, 88])
  let mrz := dg1.drop 5
  let line := mrz.drop 44
  guard (wellFormed mrz line = true)
  let number := (part line 0 9).rdropWhile (· == filler)
  guard (number ≠ [] ∧ number.all (fun b => isUpper b || isDigit b) = true)
  let names := part mrz 5 44
  guard ([filler, filler] <:+: names)
  guard (nameOf names ≠ [])
  return { nameMrz := text (nameOf names), issuingState := text (part mrz 2 5), nationality := text (part line 10 13)
           birthDateMrz := text (part line 13 19), expiryDateMrz := text (part line 21 27), sexMrz := text (part line 20 21) }

/-! ## Evidence -/

/-- Original evidence of a chip. -/
structure Evidence where
  dg1 : Bytes
  sod : Bytes
  bounded : dg1.length = 93 ∧ sod ≠ [] ∧ sod.length ≤ 8192

def Evidence.fromBytes (dg1 sod : Bytes) : Except String Evidence :=
  if h : dg1.length = 93 ∧ sod ≠ [] ∧ sod.length ≤ 8192 then .ok ⟨dg1, sod, h⟩ else .error "invalid_passport_evidence"

structure Policy where
  crls : List Bytes

structure VerifiedDg1 where
  claims : Dg1Claims
  report : Report

inductive VerificationError where
  | invalidEvidence
  | unsupportedEvidence
  | untrustedIssuer
  | invalidCertificate
  | revocationUnknown
  | revoked
  | invalidTime
  deriving DecidableEq

def authorize (report : Report) (claims : Option Dg1Claims) (now : Nat) : Except VerificationError VerifiedDg1 := do
  denyIf (report.state = .unsupported) .unsupportedEvidence
  denyIf (report.state ≠ .consistent) .invalidEvidence
  denyIf (report.checkedDataGroups ≠ [1]) .invalidEvidence
  denyIf (report.issuerTrust = "unknown_issuer" ∨ report.issuerTrust = "not_configured") .untrustedIssuer
  denyIf (report.issuerTrust ≠ "csca_verified") .invalidCertificate
  denyIf (report.checkedAt ≠ some now ∨ (report.validUntil.all fun u => decide (u ≤ now)) = true) .invalidTime
  denyIf (report.revocation = "revoked") .revoked
  denyIf (report.revocation ≠ "good") .revocationUnknown
  match claims with
  | none => throw .invalidEvidence
  | some claims => return { claims, report }

namespace Evidence

def inspect (self : Evidence) (policy : Policy) (now : Nat) : Report :=
  match claims self.dg1 with
  | none => Report.new .invalid
  | some _ =>
    match Signed.verifyInner self.sod self.dg1 with
    | .error state => Report.new state
    | .ok cert => check cert (part self.dg1 7 10) policy.crls now (Report.new .consistent)

def verify (self : Evidence) (policy : Policy) (now : Nat) : Except VerificationError VerifiedDg1 :=
  authorize (self.inspect policy now) (claims self.dg1) now

end Evidence

def Policy.validUntil (self : Policy) (now : Nat) : Except String Nat := policyValidUntil self.crls now

/-- `evidence_valid_until` -/
def VerifiedDg1.evidenceValidUntil (self : VerifiedDg1) : Nat := self.report.validUntil.getD 0

end

end Mikaki.Identity.Passport
