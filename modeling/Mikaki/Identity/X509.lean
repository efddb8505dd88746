import Mikaki.Identity.WalletAuthorization
import Mikaki.Lib.Base64url

/-!
# Certificates and revocation lists

What the verifiers read of a certificate and of a revocation list. DER, keys,
signatures and the building of paths are libraries, given here by their
functions; of the path building only how it may depend on the time is assumed.
-/

namespace Mikaki.Identity.X509

open Wallet (PublicJwk)

abbrev Bytes := List UInt8

/-- `u64::MAX` -/
def u64Max : Nat := 2 ^ 64 - 1

/-- `saturating_add` -/
def saturatingAdd (a b : Nat) : Nat := min (a + b) u64Max

/-! ## Certificates -/

structure AlgorithmIdentifier where
  oid : String
  parameters : Option Bytes
  deriving DecidableEq

inductive Tag where
  | printableString
  | utf8String
  | enumerated
  | other (n : Nat)
  deriving DecidableEq

structure Attribute where
  oid : String
  tag : Tag
  value : Bytes
  deriving DecidableEq

/-- A sequence of sets of attributes. -/
abbrev Name := List (List Attribute)

structure Extension where
  extnId : String
  critical : Bool
  extnValue : Bytes
  deriving DecidableEq

inductive Version where
  | v1
  | v2
  | v3
  deriving DecidableEq

/-- A certificate; times are in whole seconds, and an encoding that can fail is an `Option`. -/
structure Certificate where
  version : Version
  serialNumber : Bytes
  signature : AlgorithmIdentifier
  issuer : Name
  notBefore : Nat
  notAfter : Nat
  subject : Name
  /-- `subject_public_key_info().to_der()` -/
  publicKeyInfo : Option Bytes
  /-- The bits of the public key. -/
  subjectPublicKey : Option Bytes
  extensions : Option (List Extension)
  /-- The encoding of what is signed. -/
  tbs : Option Bytes
  signatureAlgorithm : AlgorithmIdentifier
  signatureBytes : Option Bytes
  /-- `to_der()` of the whole. -/
  der : Option Bytes
  seconds : notBefore ≤ u64Max ∧ notAfter ≤ u64Max

structure RevokedCertificate where
  serialNumber : Bytes
  revocationDate : Nat
  entryExtensions : Option (List Extension)

structure CertificateList where
  version : Version
  signature : AlgorithmIdentifier
  issuer : Name
  /-- `issuer.to_der()` -/
  issuerDer : Option Bytes
  thisUpdate : Nat
  nextUpdate : Option Nat
  revokedCertificates : Option (List RevokedCertificate)
  crlExtensions : Option (List Extension)
  tbs : Option Bytes
  signatureAlgorithm : AlgorithmIdentifier
  signatureBytes : Option Bytes
  der : Option Bytes

/-! ## Values of extensions -/

structure KeyUsage where
  bits : Nat

namespace KeyUsage

def digitalSignature (self : KeyUsage) : Bool := self.bits.testBit 0

def keyCertSign (self : KeyUsage) : Bool := self.bits.testBit 5

def crlSign (self : KeyUsage) : Bool := self.bits.testBit 6

end KeyUsage

structure BasicConstraints where
  ca : Bool
  pathLenConstraint : Option Nat

inductive GeneralName where
  | rfc822Name (s : String)
  | dnsName (s : String)
  | uniformResourceIdentifier (s : String)
  | other

structure AuthorityKeyIdentifier where
  keyIdentifier : Option Bytes
  authorityCertIssuer : Option (List GeneralName)
  authorityCertSerialNumber : Option Bytes

inductive DistributionPointName where
  | fullName (names : List GeneralName)
  | nameRelativeToCrlIssuer

structure DistributionPoint where
  distributionPoint : Option DistributionPointName
  /-- Whether there are reasons, and whether there is an issuer of the list. -/
  reasons : Bool
  crlIssuer : Bool

/-- `from_der` of the types that are read. -/
class Der where
  certificate : Bytes → Option Certificate
  certificateList : Bytes → Option CertificateList
  keyUsage : Bytes → Option KeyUsage
  basicConstraints : Bytes → Option BasicConstraints
  extendedKeyUsage : Bytes → Option (List String)
  subjectAltName : Bytes → Option (List GeneralName)
  issuerAltName : Bytes → Option (List GeneralName)
  authorityKeyIdentifier : Bytes → Option AuthorityKeyIdentifier
  crlDistributionPoints : Bytes → Option (List DistributionPoint)
  crlNumber : Bytes → Option Bytes
  octetString : Bytes → Option Bytes
  any : Bytes → Option (Tag × Bytes)

/-- The first extension of an identifier. -/
def Certificate.extension (self : Certificate) (oid : String) : Option Extension :=
  self.extensions.bind fun es => es.find? fun e => e.extnId = oid

/-! ## Keys and texts -/

/-- A point of P-256. -/
structure VerifyingKey where
  x : Vector UInt8 32
  y : Vector UInt8 32
  deriving DecidableEq

/-- `PublicJwk::from_key` -/
def fromKey (key : VerifyingKey) : PublicJwk := ⟨"EC", "P-256", Base64url.encode key.x.toList, Base64url.encode key.y.toList⟩

class P256 where
  /-- `VerifyingKey::from_public_key_der` -/
  fromPublicKeyDer : Bytes → Option VerifyingKey
  /-- A DER signature of the message under the key. -/
  verify : VerifyingKey → Bytes → Bytes → Bool
  sha1 : Bytes → Bytes

/-- The padded alphabet, and what names of hosts are. -/
class Texts where
  decode : String → Option Bytes
  encode : Bytes → String
  isIpAddr : String → Bool
  isDnsName : String → Bool

/-! ## Paths -/

inductive PathError where
  | certRevoked
  | unknownRevocationStatus
  | crlExpired
  | invalidCrlSignatureForPublicKey
  | issuerNotCrlSigner
  | other
  deriving DecidableEq

inductive Usage where
  | requiredIfPresent (oid : String)
  | clientAuth

/-- A path is to be built from a certificate over intermediate ones to an anchor; where there are lists, each
certificate of the path needs the status in one that has not expired. -/
structure Path where
  certificate : Bytes
  intermediates : List Bytes
  anchors : List Bytes
  usage : Usage
  crls : Option (List Bytes)

class Webpki where
  anchorFromTrustedCert : Bytes → Bool
  endEntityCert : Bytes → Bool
  certRevocationList : Bytes → Bool
  verifyForUsage : Path → Nat → Except PathError Unit

section
variable [Der]

/-- At both times a certificate is valid, or at both it is not, for the same reason. -/
def SameValidity (bytes : Bytes) (t u : Nat) : Prop :=
  ∃ c, Der.certificate bytes = some c ∧ (c.notBefore ≤ t ↔ c.notBefore ≤ u) ∧ (t ≤ c.notAfter ↔ u ≤ c.notAfter)

/-- At both times a list has begun and has not expired, or not. -/
def SameStatus (bytes : Bytes) (t u : Nat) : Prop :=
  ∃ crl n, Der.certificateList bytes = some crl ∧ crl.nextUpdate = some n ∧ (crl.thisUpdate ≤ t ↔ crl.thisUpdate ≤ u) ∧ (t < n ↔ u < n)

/-- The verdict on a path depends on the time through the certificates and the lists only. -/
def TimeThroughValidity [Webpki] : Prop :=
  ∀ (p : Path) t u, (∀ c ∈ p.certificate :: p.intermediates ++ p.anchors, SameValidity c t u) → (∀ crls ∈ p.crls, ∀ b ∈ crls, SameStatus b t u) →
    Webpki.verifyForUsage p t = Webpki.verifyForUsage p u

end

end Mikaki.Identity.X509
