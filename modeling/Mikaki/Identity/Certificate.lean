import Mikaki.Identity.X509

/-!
# Chains of readers and attesters

An explicit chain of certificates is checked one by one, then as a path to the
anchors of a policy; the deadline is the first end of the certificates, the
anchors and the revocation lists.
-/

namespace Mikaki.Identity.Certificate

open Checks X509
open Wallet (PublicJwk orElse)

def readerEku : String := "1.0.18013.5.1.6"

structure CrlPolicy where
  crls : List String
  maxAgeSeconds : Nat

structure ReaderTrust where
  trustAnchors : List String
  dnsName : Option String
  revocation : Option CrlPolicy

/-- The error of nearly every check of a chain. -/
def chainError : String := "invalid_certificate_chain"

section
variable [Der] [P256] [Texts] [Webpki]

def decodeCertificate (value : String) : Except String Bytes := do
  denyIf (value.utf8ByteSize > 5464) chainError
  let bytes ← orElse chainError (Texts.decode value)
  denyIf (bytes = [] ∨ bytes.length > 4096 ∨ Texts.encode bytes ≠ value) chainError
  return bytes

/-- Texts that decode to certificates, in their order. -/
def decodeCertificates (values : List String) : Except String (List Bytes) := collect values decodeCertificate

/-! ## Revocation lists -/

/-- An extension of a list; a delta or a partial list is not supported, nor a critical extension. -/
def checkCrlExtension (e : Extension) : Except String Unit := do
  if e.extnId = "2.5.29.35" then
    let aki ← orElse "invalid_crl" (Der.authorityKeyIdentifier e.extnValue)
    denyIf ((aki.keyIdentifier.all fun id => id.isEmpty || id.length > 64) = true ∨ aki.authorityCertIssuer.isSome = true ∨
      aki.authorityCertSerialNumber.isSome = true) "unsupported_crl"
  if e.extnId = "2.5.29.20" then
    let number ← orElse "invalid_crl" (Der.crlNumber e.extnValue)
    denyIf (number.length > 20) "unsupported_crl"

def checkCrlExtensions : List String → List Extension → Except String Unit
  | _, [] => .ok ()
  | ids, e :: es => do
    checkCrlExtension e
    denyIf (e.extnId ∈ ids ∨ e.critical = true ∨ e.extnId = "2.5.29.27" ∨ e.extnId = "2.5.29.28") "unsupported_crl"
    checkCrlExtensions (e.extnId :: ids) es

/-- An extension of an entry: a complete list removes nothing, and has no other issuer. -/
def checkEntryExtensions : List String → List Extension → Except String Unit
  | _, [] => .ok ()
  | ids, e :: es => do
    denyIf (e.extnId ∈ ids ∨ e.critical = true ∨ e.extnId = "2.5.29.29") "unsupported_crl"
    denyIf (e.extnId = "2.5.29.21" ∧ e.extnValue = [0x0a, 0x01, 0x08]) "unsupported_crl"
    checkEntryExtensions (e.extnId :: ids) es

def checkEntries (thisUpdate : Nat) : List Bytes → List RevokedCertificate → Except String Unit
  | _, [] => .ok ()
  | serials, entry :: entries => do
    denyIf (entry.serialNumber ∈ serials ∨ entry.revocationDate > thisUpdate) "invalid_crl"
    checkEntryExtensions [] (entry.entryExtensions.getD [])
    checkEntries thisUpdate (entry.serialNumber :: serials) entries

def structural (bytes : Bytes) : Except String CertificateList := do
  let crl ← orElse "invalid_crl" (Der.certificateList bytes)
  denyIf (crl.version ≠ .v2 ∨ crl.signature ≠ crl.signatureAlgorithm ∨ crl.signatureAlgorithm.oid ≠ "1.2.840.10045.4.3.2" ∨
    crl.signatureAlgorithm.parameters.isSome = true ∨ crl.signatureBytes.isNone = true ∨
    (crl.nextUpdate.all fun e => decide (e ≤ crl.thisUpdate)) = true) "invalid_crl"
  let extensions := crl.crlExtensions.getD []
  checkCrlExtensions [] extensions
  denyIf ("2.5.29.35" ∉ extensions.map (·.extnId) ∨ "2.5.29.20" ∉ extensions.map (·.extnId)) "unsupported_crl"
  let entries := crl.revokedCertificates.getD []
  denyIf (entries.length > 1024) "invalid_crl"
  checkEntries crl.thisUpdate [] entries
  denyIf (Webpki.certRevocationList bytes = false) "invalid_crl"
  return crl

namespace CrlPolicy

/-- The lists behind `total` bytes and the issuers that are seen. -/
def decodeFrom : Nat → List Bytes → List String → Except String (List Bytes)
  | _, _, [] => .ok []
  | total, issuers, value :: values => do
    denyIf (value.utf8ByteSize > 43692) "invalid_crl"
    let bytes ← orElse "invalid_crl" (Texts.decode value)
    denyIf (bytes = [] ∨ bytes.length > 32768 ∨ total + bytes.length > 131072 ∨ Texts.encode bytes ≠ value) "invalid_crl"
    let crl ← structural bytes
    let issuer ← orElse "invalid_crl" crl.issuerDer
    denyIf (issuer ∈ issuers) "ambiguous_crl_issuer"
    let rest ← decodeFrom (total + bytes.length) (issuer :: issuers) values
    return bytes :: rest

def decode (self : CrlPolicy) : Except String (List Bytes) := do
  denyIf (self.crls = [] ∨ self.crls.length > 8 ∨ ¬(60 ≤ self.maxAgeSeconds ∧ self.maxAgeSeconds ≤ 604800)) "invalid_crl_policy"
  decodeFrom 0 [] self.crls

def validate (self : CrlPolicy) : Except String Unit := do
  let _ ← self.decode

/-- One list: it has begun, has not expired, and is not too old; its end is the first of the two. -/
def deadlineOf (self : CrlPolicy) (bytes : Bytes) (now : Nat) : Except String Nat := do
  let crl ← structural bytes
  let nextUpdate ← orElse "invalid_crl" crl.nextUpdate
  denyIf (crl.thisUpdate > now) "crl_not_yet_valid"
  denyIf (now ≥ nextUpdate) "crl_expired"
  let freshUntil := saturatingAdd crl.thisUpdate self.maxAgeSeconds
  denyIf (now ≥ freshUntil) "crl_stale"
  return min nextUpdate freshUntil

def deadline (self : CrlPolicy) (bytes : List Bytes) (now : Nat) : Except String Nat := do
  let ends ← collect bytes fun b => self.deadlineOf b now
  return ends.foldl min u64Max

end CrlPolicy

/-! ## One certificate -/

/-- The extensions that may be critical. -/
def knownExtensions : List String := ["2.5.29.15", "2.5.29.19", "2.5.29.30", "2.5.29.17", "2.5.29.37"]

/-- The window of a certificate, where a time is given. -/
def checkValidity (cert : Certificate) : Option Nat → Except String Unit
  | none => .ok ()
  | some now => denyIf (now < cert.notBefore ∨ cert.notAfter ≤ now) chainError

/-- What is asked of a certificate but its window. -/
def checkProfile (cert : X509.Certificate) (ca reader : Bool) : Except String Unit := do
  let extensions ← orElse chainError cert.extensions
  denyIf (¬(extensions.map (·.extnId)).Nodup ∨ ∃ e ∈ extensions, e.critical = true ∧ e.extnId ∉ knownExtensions) chainError
  let kuExt ← orElse chainError (cert.extension "2.5.29.15")
  let bcExt ← orElse chainError (cert.extension "2.5.29.19")
  let ku ← orElse chainError (Der.keyUsage kuExt.extnValue)
  let bc ← orElse chainError (Der.basicConstraints bcExt.extnValue)
  denyIf (kuExt.critical = false ∨ bcExt.critical = false ∨ bc.ca ≠ ca ∨ (ca = true ∧ ku.keyCertSign = false) ∨
    (ca = false ∧ (ku.digitalSignature = false ∨ ku.keyCertSign = true))) chainError
  if reader then
    if ca then
      match cert.extension "2.5.29.37" with
      | none => return ()
      | some ekuExt =>
        let eku ← orElse chainError (Der.extendedKeyUsage ekuExt.extnValue)
        denyIf (readerEku ∉ eku) chainError
    else
      let ekuExt ← orElse chainError (cert.extension "2.5.29.37")
      let eku ← orElse chainError (Der.extendedKeyUsage ekuExt.extnValue)
      denyIf (ekuExt.critical = false ∨ "1.0.18013.5.1.6" ∉ eku) chainError

def checkCertificateForPurpose (bytes : Bytes) (now : Option Nat) (ca reader : Bool) : Except String X509.Certificate := do
  denyIf (bytes = [] ∨ bytes.length > 4096) chainError
  let cert ← orElse chainError (Der.certificate bytes)
  checkValidity cert now
  checkProfile cert ca reader
  return cert

def checkCertificate (bytes : Bytes) (now : Option Nat) (ca : Bool) : Except String X509.Certificate :=
  checkCertificateForPurpose bytes now ca true

/-! ## Policies -/

/-- Distinct roots, each checked without a time. -/
def checkRoots (check : Bytes → Except String Unit) : List Bytes → List String → Except String Unit
  | _, [] => .ok ()
  | seen, root :: roots => do
    let bytes ← decodeCertificate root
    denyIf (bytes ∈ seen) "invalid_certificate_policy"
    check bytes
    checkRoots check (bytes :: seen) roots

def lowercase (s : String) : String := s.map Char.toLower

namespace ReaderTrust

def validate (self : ReaderTrust) : Except String Unit := do
  denyIf (self.trustAnchors = [] ∨ self.trustAnchors.length > 8) "invalid_certificate_policy"
  checkRoots (fun bytes => do let _ ← checkCertificate bytes none true) [] self.trustAnchors
  denyIf (∃ name ∈ self.dnsName, Texts.isIpAddr name = true ∨ name.utf8ByteSize > 253 ∨ '.' ∉ name.toList ∨
    name.toList.getLast? = some '.' ∨ name ≠ lowercase name ∨ Texts.isDnsName name = false) "invalid_certificate_policy"
  match self.revocation with
  | none => return ()
  | some policy => policy.validate

end ReaderTrust

/-! ## Chains -/

/-- `VerifyingKey::from_public_key_der` of the key of a certificate. -/
def publicKey (cert : X509.Certificate) (error : String) : Except String VerifyingKey := do
  let der ← orElse error cert.publicKeyInfo
  orElse error (P256.fromPublicKeyDer der)

/-- An anchor of a policy; one that is to check revocation must be able to sign lists. -/
def checkAnchor (revocation : Bool) (bytes : Bytes) (now : Nat) : Except String X509.Certificate := do
  let root ← checkCertificate bytes (some now) true
  if revocation then
    let ku ← orElse "invalid_crl_policy" (root.extension "2.5.29.15")
    let ku ← orElse "invalid_crl_policy" (Der.keyUsage ku.extnValue)
    denyIf (ku.crlSign = false) "invalid_crl_policy"
  return root

/-- What a path answers of a reader. -/
def pathError : PathError → String
  | .certRevoked => "certificate_revoked"
  | .unknownRevocationStatus => "certificate_status_unknown"
  | .crlExpired => "crl_expired"
  | .invalidCrlSignatureForPublicKey | .issuerNotCrlSigner => "invalid_crl"
  | .other => "untrusted_certificate_chain"

/-- `map_err` -/
def mapError {ε ε' α : Type} (f : ε → ε') : Except ε α → Except ε' α
  | .ok a => .ok a
  | .error e => .error (f e)

/-- The policy's name is one of the leaf's. -/
def checkName (leaf : X509.Certificate) : Option String → Except String Unit
  | none => .ok ()
  | some name => do
    let san ← orElse "certificate_name_mismatch" (leaf.extension "2.5.29.17")
    let names ← orElse "certificate_name_mismatch" (Der.subjectAltName san.extnValue)
    denyIf (¬names.any fun n => match n with
      | .dnsName dns => lowercase dns == lowercase name
      | _ => false) "certificate_name_mismatch"

/-- The lists of a policy, and the end of them. -/
def crlDeadline (revocation : Option CrlPolicy) (deadline : Nat) (now : Nat) : Except String (Option (List Bytes) × Nat) := do
  match revocation with
  | none => return (none, deadline)
  | some policy =>
    let crlBytes ← policy.decode
    let crlEnd ← policy.deadline crlBytes now
    return (some crlBytes, min deadline crlEnd)

/-- The ends of certificates, into a deadline. -/
def fold (deadline : Nat) (certs : List X509.Certificate) : Nat := certs.foldl (fun d c => min d c.notAfter) deadline

def verifyReaderChain (chain : List Bytes) (policy : ReaderTrust) (expected : PublicJwk) (now : Nat) : Except String Nat := do
  policy.validate
  denyIf (chain = [] ∨ chain.length > 4) chainError
  let leaf ← checkCertificate (chain.headD []) (some now) false
  let cas ← collect chain.tail fun cert => checkCertificate cert (some now) true
  let key ← publicKey leaf chainError
  denyIf (fromKey key ≠ expected) "certificate_key_mismatch"
  let roots ← decodeCertificates policy.trustAnchors
  let anchors ← collect roots fun cert => checkAnchor policy.revocation.isSome cert now
  denyIf (∃ root ∈ roots, Webpki.anchorFromTrustedCert root = false) "invalid_certificate_policy"
  denyIf (Webpki.endEntityCert (chain.headD []) = false) chainError
  let (crls, deadline) ← crlDeadline policy.revocation (fold (fold leaf.notAfter cas) anchors) now
  denyIf (∃ bytes ∈ crls.getD [], Webpki.certRevocationList bytes = false) "invalid_crl"
  denyIf (crls = some []) "invalid_crl_policy"
  mapError pathError (Webpki.verifyForUsage ⟨chain.headD [], chain.tail, roots, .requiredIfPresent readerEku, crls⟩ now)
  checkName leaf policy.dnsName
  return deadline

/-- No extended key usage is supported. -/
def denyEku (cert : X509.Certificate) : Except String Unit :=
  denyIf (∃ es ∈ cert.extensions, ∃ e ∈ es, e.extnId = "2.5.29.37") "unsupported_attester_eku"

def validateAttesterRoots (roots : List String) : Except String Unit := do
  denyIf (roots = [] ∨ roots.length > 8) "invalid_certificate_policy"
  checkRoots (fun bytes => do
    let cert ← checkCertificateForPurpose bytes none true false
    denyEku cert
    denyIf (Webpki.anchorFromTrustedCert bytes = false) "invalid_certificate_policy") [] roots

/-- The certificates of a chain and its roots, none of them twice; only the first one is no authority. -/
def attesterCertificates (now : Nat) : List Bytes → Bool → List Bytes → Except String (List X509.Certificate)
  | _, _, [] => .ok []
  | seen, ca, bytes :: rest => do
    denyIf (bytes ∈ seen) chainError
    let cert ← checkCertificateForPurpose bytes (some now) ca false
    denyEku cert
    let certs ← attesterCertificates now (bytes :: seen) true rest
    return cert :: certs

def verifyAttesterChain (chain : List Bytes) (roots : List String) (now : Nat) : Except String (VerifyingKey × Nat) := do
  denyIf (chain = [] ∨ chain.length > 4 ∨ roots = [] ∨ roots.length > 8) chainError
  let roots ← decodeCertificates roots
  let certs ← attesterCertificates now [] false (chain ++ roots)
  let leaf ← checkCertificateForPurpose (chain.headD []) (some now) false false
  denyIf (leaf.issuer = leaf.subject) chainError
  let key ← publicKey leaf chainError
  denyIf (∃ root ∈ roots, Webpki.anchorFromTrustedCert root = false) "invalid_certificate_policy"
  denyIf (Webpki.endEntityCert (chain.headD []) = false) chainError
  mapError (fun _ => "untrusted_certificate_chain") (Webpki.verifyForUsage ⟨chain.headD [], chain.tail, roots, .clientAuth, none⟩ now)
  return (key, fold u64Max certs)

/-- Certificates are compared by their bytes. -/
local instance lawfulBytes : LawfulBEq (List UInt8) := inferInstance

/-- The certificates of a chain are distinct and none is an anchor. -/
def distinctFrom (roots : List Bytes) (chain : List Bytes) : Except String Unit :=
  denyIf (¬chain.Nodup ∨ ∃ cert ∈ chain, cert ∈ roots) chainError

def verifyX509HashReaderChain (chain : List Bytes) (policy : ReaderTrust) (expected : PublicJwk) (clientId : String) (now : Nat) :
    Except String Nat := do
  policy.validate
  denyIf (chain = [] ∨ chain.length > 4) chainError
  let leaf ← orElse chainError chain.head?
  denyIf (clientId ≠ "x509_hash:" ++ Base64url.encode (Sha.sha256 leaf)) "certificate_hash_mismatch"
  let cert ← checkCertificate leaf (some now) false
  denyIf (cert.issuer = cert.subject) chainError
  let roots ← decodeCertificates policy.trustAnchors
  distinctFrom roots chain
  verifyReaderChain chain policy expected now

end

end Mikaki.Identity.Certificate
