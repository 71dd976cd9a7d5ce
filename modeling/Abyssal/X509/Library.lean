import Abyssal.Net.Addresses
import Mathlib.Data.Int.Notation

/-!
# Certificates

What a certificate library does: a key is read from its own text, a certificate is read from its own
encoding, a signature is accepted under the public key of the one who signed, and names come out of
an encoded extension as they went in.
-/

namespace Abyssal.X509

open Net

/-! ## Parameters -/

inductive DnType
  | commonName
  | organizationName
  deriving DecidableEq

abbrev DistinguishedName := List (DnType × Text)

def commonName (name : DistinguishedName) : Option Text :=
  name.findSome? fun part => if part.1 = .commonName then some part.2 else none

/-- Whether a certificate is one of an authority, and how many authorities may follow it. -/
inductive IsCa
  | ca (pathLength : ℕ)
  | explicitNoCa

def IsCa.toBool : IsCa → Bool
  | .ca _ => true
  | .explicitNoCa => false

inductive KeyUsagePurpose
  | keyCertSign
  | crlSign
  | digitalSignature
  deriving DecidableEq

inductive ExtendedKeyUsagePurpose
  | serverAuth
  deriving DecidableEq

inductive SanType
  | ipAddress (addr : IpAddr)
  | dnsName (name : Text)

/-- A byte of a mask that has its first bits set. -/
def maskByte (bits : ℕ) : UInt8 :=
  if 8 ≤ bits then 0xff else UInt8.ofNat (256 - Nat.pow 2 (8 - bits))

def maskBytes : ℕ → ℕ → List UInt8
  | 0, _ => []
  | n + 1, bits => maskByte bits :: maskBytes n (bits - 8)

structure CidrSubnet where
  addr : List UInt8
  mask : List UInt8

def CidrSubnet.fromAddrPrefix (addr : IpAddr) (bits : ℕ) : CidrSubnet :=
  ⟨addr.octets, maskBytes addr.octets.length bits⟩

inductive GeneralSubtree
  | ipAddress (subnet : CidrSubnet)
  | dnsName (name : Text)

/-- What a certificate is made from. Times are in seconds. -/
structure CertificateParams where
  distinguishedName : DistinguishedName
  isCa : IsCa
  keyUsages : List KeyUsagePurpose
  extendedKeyUsages : List ExtendedKeyUsagePurpose
  subjectAltNames : List SanType
  permittedSubtrees : Option (List GeneralSubtree)
  notBefore : ℤ
  notAfter : ℤ
  serialNumber : List UInt8

/-! ## Certificates as they are read -/

inductive GeneralName
  | dnsName (name : Text)
  | ipAddress (bytes : List UInt8)
  | other

inductive ParsedExtension
  | basicConstraints (ca : Bool)
  | subjectAlternativeName (names : List GeneralName)
  | nameConstraints (permitted : Option (List GeneralName))
  | other

structure TbsCertificate (PublicKey : Type) where
  subject : DistinguishedName
  issuer : DistinguishedName
  notBefore : ℤ
  notAfter : ℤ
  serialNumber : List UInt8
  publicKey : PublicKey
  extensions : List ParsedExtension

structure Certificate (PublicKey Signature : Type) extends TbsCertificate PublicKey where
  signature : Signature

def SanType.generalName : SanType → GeneralName
  | .ipAddress addr => .ipAddress addr.octets
  | .dnsName name => .dnsName name

def GeneralSubtree.generalName : GeneralSubtree → GeneralName
  | .ipAddress subnet => .ipAddress (subnet.addr ++ subnet.mask)
  | .dnsName name => .dnsName name

def ParsedExtension.alternativeNames : ParsedExtension → List GeneralName
  | .subjectAlternativeName names => names
  | _ => []

def ParsedExtension.permittedNames : ParsedExtension → List GeneralName
  | .nameConstraints permitted => permitted.getD []
  | _ => []

/-- Whether an extension says that the certificate is one of an authority. -/
def ParsedExtension.ca? : ParsedExtension → Option Bool
  | .basicConstraints ca => some ca
  | _ => none

/-- The extensions say what the parameters say, with the names in their order. -/
structure Faithful (params : CertificateParams) (extensions : List ParsedExtension) : Prop where
  ca : extensions.filterMap ParsedExtension.ca? = [params.isCa.toBool]
  alternativeNames : extensions.flatMap ParsedExtension.alternativeNames =
    params.subjectAltNames.map SanType.generalName
  permittedNames : extensions.flatMap ParsedExtension.permittedNames =
    (params.permittedSubtrees.getD []).map GeneralSubtree.generalName

/-! ## The library -/

/-- The types of a certificate library, what it computes, and what can be relied on. A signature may
depend on chance. -/
structure Library where
  PrivateKey : Type
  PublicKey : Type
  Signature : Type
  Chance : Type
  Der : Type
  KeyPem : Type
  publicKey : PrivateKey → PublicKey
  serializePem : PrivateKey → KeyPem
  fromPem : KeyPem → Option PrivateKey
  encodeExtensions : CertificateParams → List ParsedExtension
  sign : PrivateKey → Chance → TbsCertificate PublicKey → Signature
  verify : PublicKey → TbsCertificate PublicKey → Signature → Bool
  encode : Certificate PublicKey Signature → Der
  decode : Der → Option (Certificate PublicKey Signature)
  fingerprint : Der → Text
  fromPem_serializePem : ∀ key, fromPem (serializePem key) = some key
  decode_encode : ∀ cert, decode (encode cert) = some cert
  verify_sign : ∀ key chance tbs, verify (publicKey key) tbs (sign key chance tbs) = true
  faithful : ∀ params, Faithful params (encodeExtensions params)

namespace Library

variable (lib : Library)
  (params : CertificateParams) (key : lib.PrivateKey) (issuer : DistinguishedName)

def tbsCertificate : TbsCertificate lib.PublicKey where
  subject := params.distinguishedName
  issuer := issuer
  notBefore := params.notBefore
  notAfter := params.notAfter
  serialNumber := params.serialNumber
  publicKey := lib.publicKey key
  extensions := lib.encodeExtensions params

def signedBy (issuerKey : lib.PrivateKey) (chance : lib.Chance) : lib.Der :=
  lib.encode { lib.tbsCertificate params key issuer with
    signature := lib.sign issuerKey chance (lib.tbsCertificate params key issuer) }

def selfSigned (params : CertificateParams) (key : lib.PrivateKey) (chance : lib.Chance) :
    lib.Der :=
  lib.signedBy params key params.distinguishedName key chance

theorem decode_signedBy (issuerKey : lib.PrivateKey) (chance : lib.Chance) :
    lib.decode (lib.signedBy params key issuer issuerKey chance) =
      some { lib.tbsCertificate params key issuer with
        signature := lib.sign issuerKey chance (lib.tbsCertificate params key issuer) } :=
  lib.decode_encode _

/-- A library that keeps what it is given instead of encoding it, and whose signatures are the
keys that sign. -/
def recording : Library where
  PrivateKey := ℕ
  PublicKey := ℕ
  Signature := ℕ
  Chance := Unit
  Der := Certificate ℕ ℕ
  KeyPem := ℕ
  publicKey := id
  serializePem := id
  fromPem := some
  encodeExtensions params :=
    [.basicConstraints params.isCa.toBool,
      .subjectAlternativeName (params.subjectAltNames.map SanType.generalName),
      .nameConstraints (some ((params.permittedSubtrees.getD []).map GeneralSubtree.generalName))]
  sign key _ _ := key
  verify key _ signature := key = signature
  encode cert := cert
  decode := some
  fingerprint cert := (commonName cert.subject).getD []
  fromPem_serializePem _ := rfl
  decode_encode _ := rfl
  verify_sign _ _ _ := decide_eq_true rfl
  faithful params := by
    refine ⟨rfl, ?_, ?_⟩
    · simp [ParsedExtension.alternativeNames]
    · simp [ParsedExtension.permittedNames]

end Library

end Abyssal.X509
