import Mikaki.Identity.Certificate

/-!
# Signing trust of credentials

The chain of a credential's signer under the anchors of an ecosystem: each
certificate against the profile of its purpose, the chain in the order that is
given, then as a path; a deadline over all of them and the revocation lists.
-/

namespace Mikaki.Identity.CredentialCertificate

open Checks X509
open Wallet (PublicJwk orElse)
open Certificate (CrlPolicy decodeCertificate decodeCertificates mapError fold crlDeadline)

structure SigningTrust where
  chain : List String
  trustAnchors : List String
  revocation : Option CrlPolicy

inductive Purpose where
  | sdJwt
  | mdoc
  deriving DecidableEq

/-- `ERR` -/
def err : String := "invalid_credential_certificate"

section
variable [Der] [P256] [Texts] [Webpki]

def ext (c : X509.Certificate) (oid : String) : Except String Extension := orElse err (c.extension oid)

/-- `public` -/
def publicOf (c : X509.Certificate) : Except String VerifyingKey := Certificate.publicKey c err

/-! ## The profile of a certificate -/

/-- The window of a certificate. -/
def checkWindow (c : X509.Certificate) (now : Nat) : Except String Unit := denyIf (now < c.notBefore ∨ c.notAfter ≤ now) err

def validateCertificateHeader (c : X509.Certificate) (now : Nat) : Except String Unit := do
  denyIf (c.version ≠ .v3 ∨ c.serialNumber.length > 20 ∨ c.serialNumber.all (· == 0) = true) err
  checkWindow c now
  denyIf (c.signature ≠ c.signatureAlgorithm ∨ c.signatureAlgorithm.oid ≠ "1.2.840.10045.4.3.2" ∨
    c.signatureAlgorithm.parameters.isSome = true) err
  let _ ← publicOf c

/-- The extensions that may be critical. -/
def mayBeCritical (ca : Bool) (purpose : Purpose) (oid : String) : Bool :=
  oid == "2.5.29.15" || ((ca || purpose == .sdJwt) && oid == "2.5.29.19") || (!ca && purpose == .mdoc && oid == "2.5.29.37")

def validateExtensions (c : X509.Certificate) (ca : Bool) (purpose : Purpose) : Except String Unit := do
  let extensions ← orElse err c.extensions
  denyIf (¬(extensions.map (·.extnId)).Nodup ∨ ∃ e ∈ extensions, e.critical = true ∧ mayBeCritical ca purpose e.extnId = false) err

def validateKeyUsage (c : X509.Certificate) (ca : Bool) : Except String KeyUsage := do
  let kuExt ← ext c "2.5.29.15"
  let ku ← orElse err (Der.keyUsage kuExt.extnValue)
  denyIf (kuExt.critical = false ∨ (ca = false ∧ ku.bits ≠ 1) ∨ (ca = true ∧ (ku.keyCertSign = false ∨ ku.digitalSignature = true))) err
  return ku

def validateBasicConstraints (c : X509.Certificate) (ca : Bool) (purpose : Purpose) (ku : KeyUsage) : Except String Unit := do
  if ca then
    let e ← ext c "2.5.29.19"
    let bc ← orElse err (Der.basicConstraints e.extnValue)
    denyIf (e.critical = false ∨ bc.ca = false ∨ (purpose = .mdoc ∧ (bc.pathLenConstraint ≠ some 0 ∨ ku.bits ≠ 96))) err
  else
    match c.extension "2.5.29.19" with
    | none => return ()
    | some e =>
      let bc ← orElse err (Der.basicConstraints e.extnValue)
      denyIf (bc.ca = true) err

/-- The names whose values are texts. -/
def textual : List String := ["2.5.4.3", "2.5.4.7", "2.5.4.8", "2.5.4.10", "2.5.4.11"]

/-- The attributes of a subject: one country, and common names; whether there were any. -/
def mdocSubject : Bool → Bool → List Attribute → Except String Unit
  | country, cn, [] => denyIf (country = false ∨ cn = false) err
  | country, cn, a :: rest => do
    denyIf (a.oid = "2.5.4.6" ∧ (country = true ∨ a.tag ≠ .printableString ∨ a.value.length ≠ 2 ∨
      (a.value.all fun b => 65 ≤ b && b ≤ 90) = false)) err
    denyIf (a.oid = "2.5.4.3" ∧ a.value = []) err
    denyIf (a.oid ∈ textual ∧ a.tag ≠ .printableString ∧ a.tag ≠ .utf8String) err
    mdocSubject (country || a.oid == "2.5.4.6") (cn || a.oid == "2.5.4.3") rest

def validateMdocSubject (c : X509.Certificate) : Except String Unit := mdocSubject false false c.subject.flatten

def validateMdocIdentifiers (c : X509.Certificate) : Except String Unit := do
  let e ← ext c "2.5.29.14"
  let ski ← orElse err (Der.octetString e.extnValue)
  let bits ← orElse err c.subjectPublicKey
  denyIf (bits.head? ≠ some 4 ∨ ski ≠ P256.sha1 bits) err
  let e ← ext c "2.5.29.18"
  let contact ← orElse err (Der.issuerAltName e.extnValue)
  denyIf (¬contact.any fun name => match name with
    | .rfc822Name s | .uniformResourceIdentifier s => !s.isEmpty
    | _ => false) err

def validateMdocSigner (c : X509.Certificate) : Except String Unit := do
  let e ← ext c "2.5.29.37"
  let eku ← orElse err (Der.extendedKeyUsage e.extnValue)
  denyIf (e.critical = false ∨ eku ≠ ["1.0.18013.5.1.2"]) err
  let e ← ext c "2.5.29.35"
  let aki ← orElse err (Der.authorityKeyIdentifier e.extnValue)
  let _ ← orElse err aki.keyIdentifier

def validateCrlDistributionPoints (c : X509.Certificate) : Except String Unit := do
  let e ← ext c "2.5.29.31"
  let points ← orElse err (Der.crlDistributionPoints e.extnValue)
  denyIf (points.isEmpty = true ∨ (points.any fun point => point.reasons || point.crlIssuer) = true ∨
    ¬points.any fun point => match point.distributionPoint with
      | some (.fullName names) => names.any fun name => match name with
        | .uniformResourceIdentifier s => !s.isEmpty
        | _ => false
      | _ => false) err

/-- What may not be in a certificate of an mdoc. -/
def excluded : List String := ["2.5.29.33", "2.5.29.30", "2.5.29.36", "2.5.29.54", "2.5.29.46"]

def validateMdocProfile (c : X509.Certificate) (ca : Bool) : Except String Unit := do
  denyIf (c.notAfter - c.notBefore > if ca then 7305 * 86400 else 457 * 86400) err
  denyIf (∃ oid ∈ excluded, (c.extension oid).isSome = true) err
  validateMdocSubject c
  validateMdocIdentifiers c
  if ca = false then
    validateMdocSigner c
  if ca = false ∨ (c.extension "2.5.29.31").isSome = true then
    validateCrlDistributionPoints c

/-- What is asked of a certificate behind its header. -/
def checkProfile (c : X509.Certificate) (ca : Bool) (purpose : Purpose) : Except String Unit := do
  validateExtensions c ca purpose
  let ku ← validateKeyUsage c ca
  denyIf (purpose = .sdJwt ∧ (c.extension "2.5.29.37").isSome = true) "unsupported_credential_eku"
  validateBasicConstraints c ca purpose ku
  if purpose = .mdoc then
    validateMdocProfile c ca

def parse (bytes : Bytes) (ca : Bool) (purpose : Purpose) (now : Nat) : Except String X509.Certificate := do
  denyIf (bytes = [] ∨ bytes.length > 4096) err
  let c ← orElse err (Der.certificate bytes)
  validateCertificateHeader c now
  checkProfile c ca purpose
  return c

def pinnedLeaf (bytes : Bytes) (expected : PublicJwk) (purpose : Purpose) (now : Nat) : Except String Nat := do
  let c ← parse bytes false purpose now
  denyIf (c.issuer = c.subject) err
  let key ← publicOf c
  denyIf (fromKey key ≠ expected) err
  return c.notAfter

def notBefore (bytes : Bytes) : Except String Nat := do
  let c ← orElse err (Der.certificate bytes)
  return c.notBefore

def checkRoots (purpose : Purpose) (now : Nat) : List Bytes → List String → Except String Unit
  | _, [] => .ok ()
  | seen, root :: roots => do
    let bytes ← decodeCertificate root
    denyIf (bytes ∈ seen) err
    let _ ← parse bytes true purpose now
    denyIf (Webpki.anchorFromTrustedCert bytes = false) err
    checkRoots purpose now (bytes :: seen) roots

def validateRoots (roots : List String) (purpose : Purpose) (now : Nat) : Except String Unit := do
  denyIf (roots = [] ∨ roots.length > 8) err
  checkRoots purpose now [] roots

/-! ## The chain -/

/-- The certificates of a chain and its roots, none of them twice; only the first one is no authority. -/
def certificates (purpose : Purpose) (now : Nat) : List Bytes → Bool → List Bytes → Except String (List X509.Certificate)
  | _, _, [] => .ok []
  | seen, ca, bytes :: rest => do
    denyIf (bytes ∈ seen) err
    let c ← parse bytes ca purpose now
    let cs ← certificates purpose now (bytes :: seen) true rest
    return c :: cs

/-- A signature over a certificate under the key of another one. -/
def checkSignature (parent child : X509.Certificate) : Except String Unit := do
  let key ← publicOf parent
  let message ← orElse err child.tbs
  let signature ← orElse err child.signatureBytes
  denyIf (P256.verify key message signature = false) err

/-- An intermediate certificate is not issued by itself. -/
def checkIntermediate (purpose : Purpose) (bytes : Bytes) (now : Nat) : Except String Unit := do
  let c ← parse bytes true purpose now
  denyIf (c.issuer = c.subject) err

/-- Each certificate is issued and signed by the next one. -/
def checkLinks (purpose : Purpose) (now : Nat) : Bool → List Bytes → Except String Unit
  | ca, child :: parent :: rest => do
    let c ← parse child ca purpose now
    let p ← parse parent true purpose now
    denyIf (c.issuer ≠ p.subject) err
    checkSignature p c
    checkLinks purpose now true (parent :: rest)
  | _, _ => .ok ()

/-- The state or province of a subject. -/
def state (c : X509.Certificate) : Option (Tag × Bytes) := (c.subject.flatten.find? fun a => a.oid = "2.5.4.8").map fun a => (a.tag, a.value)

/-- An anchor of mdocs is signed by itself; whether it is the issuer of the leaf. -/
def matchesRoot (leaf : X509.Certificate) (aki : Bytes) (bytes : Bytes) (now : Nat) : Except String Bool := do
  let root ← parse bytes true .mdoc now
  denyIf (root.issuer ≠ root.subject) err
  checkSignature root root
  let e ← ext root "2.5.29.14"
  let ski ← orElse err (Der.octetString e.extnValue)
  return leaf.issuer == root.subject && aki == ski && (state root).all fun s => state leaf == some s

/-- The direct path of an mdoc's signer. -/
def checkDirect (purpose : Purpose) (leaf : X509.Certificate) (roots : List Bytes) (now : Nat) : Except String Unit :=
  match purpose with
  | .sdJwt => .ok ()
  | .mdoc => do
    let e ← ext leaf "2.5.29.35"
    let aki ← orElse err (Der.authorityKeyIdentifier e.extnValue)
    let aki ← orElse err aki.keyIdentifier
    let found ← collect roots fun bytes => matchesRoot leaf aki bytes now
    denyIf (true ∉ found) err

def usage (purpose : Purpose) : Usage := .requiredIfPresent (if purpose = .mdoc then "1.0.18013.5.1.2" else "1.3.6.1.5.5.7.3.3")

/-- The path of a chain, and the end of it. -/
def verifyPath (chain roots : List Bytes) (revocation : Option CrlPolicy) (purpose : Purpose) (deadline now : Nat) : Except String Nat := do
  denyIf (∃ root ∈ roots, Webpki.anchorFromTrustedCert root = false) err
  denyIf (Webpki.endEntityCert (chain.headD []) = false) err
  let (crls, deadline) ← crlDeadline revocation deadline now
  denyIf (∃ bytes ∈ crls.getD [], Webpki.certRevocationList bytes = false) err
  denyIf (crls = some []) err
  mapError (fun _ => "untrusted_credential_chain") (Webpki.verifyForUsage ⟨chain.headD [], chain.tail, roots, usage purpose, crls⟩ now)
  return deadline

def verify (trust : SigningTrust) (expected : PublicJwk) (purpose : Purpose) (now : Nat) : Except String (List Bytes × Nat) := do
  denyIf (trust.chain = [] ∨ trust.chain.length > 4 ∨ trust.trustAnchors = [] ∨ trust.trustAnchors.length > 8 ∨
    (purpose = .mdoc ∧ trust.chain.length ≠ 1)) err
  let chain ← decodeCertificates trust.chain
  let roots ← decodeCertificates trust.trustAnchors
  let leaf ← parse (chain.headD []) false purpose now
  let pinned ← pinnedLeaf (chain.headD []) expected purpose now
  let certs ← certificates purpose now [] false (chain ++ roots)
  checkAll chain.tail fun bytes => checkIntermediate purpose bytes now
  checkLinks purpose now false chain
  checkDirect purpose leaf roots now
  let deadline ← verifyPath chain roots trust.revocation purpose (fold (min u64Max pinned) certs) now
  return (chain, deadline)

end

end Mikaki.Identity.CredentialCertificate
