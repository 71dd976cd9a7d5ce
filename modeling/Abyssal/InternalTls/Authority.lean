import Abyssal.InternalTls.Addresses
import Abyssal.X509.Library

/-!
# The certificate authority of the control plane

The authority is constrained to the addresses of the control plane, and issues the certificate that
is served there. What a certificate says is read back as text. The text of a certificate file is the
list of the certificates in it. Random numbers, keys and the clock are given with each call.
-/

namespace Abyssal.InternalTls

open Net Text X509 Option

/-! ### What a certificate says -/

def caDays : ℤ := 3650

def leafDays : ℤ := 825

def renewWithinDays : ℤ := 30

inductive CaError
  | noAddressForCa
  | caKeyNotGenerated
  | caNotSigned
  | noAddressForServer
  | caKeyUnreadable
  | notAPemCertificate
  | notAnX509Certificate
  | notACa
  | notPermitted (permitted : List Text) (address : Address)
  | serverKeyNotGenerated
  | invalidName
  | serverNotSigned
  | noCertificateBlock

/-- `CertInfo`. Times are in seconds. -/
structure CertInfo where
  subject : Text
  notBefore : ℤ
  notAfter : ℤ
  isCa : Bool
  sans : List Text
  permitted : List Text
  fingerprint : Text

namespace CertInfo

variable (info : CertInfo)

def daysLeft (now : ℤ) : ℤ := (info.notAfter - now) / 86400

def covers (address : Address) : Bool :=
  info.sans.any (· = address.display)

def addressBits (addr : IpAddr) : ℕ := if addr.isIpv4 then 32 else 128

def permits (address : Address) : Bool :=
  info.permitted.isEmpty ||
    info.permitted.any fun p =>
      match address with
      | .ip addr => p = addr.display ++ '/' :: ofNat (addressBits addr)
      | .dns name => name = p || ('.' :: p.dropWhile (· = '.')).isSuffixOf name

def permittedAddresses : List Address :=
  info.permitted.filterMap fun p => (Address.parse ((splitOn '/' p).headD p)).toOption

end CertInfo

def ipFromBytes (bytes : List UInt8) : Option IpAddr :=
  match bytes.length with
  | 4 => (Ipv4Addr.ofOctets bytes).map .v4
  | 16 => (Ipv6Addr.ofOctets bytes).map .v6
  | _ => none

def countOnes (byte : UInt8) : ℕ := (List.range 8).countP fun i => byte.toNat.testBit i

def cidrFromBytes (bytes : List UInt8) : Option Text := do
  let half := bytes.length / 2
  let addr ← ipFromBytes (bytes.take half)
  let bits := (bytes.drop half).foldl (fun n byte => n + countOnes byte) 0
  return addr.display ++ '/' :: ofNat bits

def sanText : GeneralName → Option Text
  | .dnsName name => some name
  | .ipAddress bytes => (ipFromBytes bytes).map IpAddr.display
  | .other => none

def subtreeText : GeneralName → Option Text
  | .dnsName name => some name
  | .ipAddress bytes => cidrFromBytes bytes
  | .other => none

structure Findings where
  isCa : Bool
  sans : List Text
  permitted : List Text

def Findings.add (found : Findings) : ParsedExtension → Findings
  | .basicConstraints ca => { found with isCa := ca }
  | .subjectAlternativeName names => { found with sans := found.sans ++ names.filterMap sanText }
  | .nameConstraints permitted =>
    { found with permitted := found.permitted ++ (permitted.getD []).filterMap subtreeText }
  | .other => found

variable (lib : Library)

abbrev Pem := List lib.Der

def certificate (pem : Pem lib) : Option (Certificate lib.PublicKey lib.Signature) :=
  pem.head?.bind lib.decode

def inspect (pem : Pem lib) : Except CaError CertInfo :=
  match pem with
  | [] => .error .notAPemCertificate
  | der :: _ =>
    match lib.decode der with
    | none => .error .notAnX509Certificate
    | some cert =>
      let found := cert.extensions.foldl Findings.add ⟨false, [], []⟩
      .ok {
        subject := (commonName cert.subject).getD []
        notBefore := cert.notBefore
        notAfter := cert.notAfter
        isCa := found.isCa
        sans := found.sans
        permitted := found.permitted
        fingerprint := lib.fingerprint der }

def issuedBy (leafPem caPem : Pem lib) : Bool :=
  match certificate lib leafPem, certificate lib caPem with
  | some leaf, some ca =>
    leaf.issuer = ca.subject && lib.verify ca.publicKey leaf.toTbsCertificate leaf.signature
  | _, _ => false

/-! ### Making certificates -/

@[ext] structure Material where
  certPem : Pem lib
  keyPem : lib.KeyPem

/-- The clock and the date, a new key and the chance for a signature, unless the library fails, and
random numbers. -/
structure Draw where
  now : ℤ
  date : Text
  key : Option lib.PrivateKey
  chance : Option lib.Chance
  serial : List UInt8
  shortId : Text

variable {lib}

def firstPemBlock (pem : Pem lib) : Except CaError (Pem lib) :=
  match pem with
  | [] => .error .noCertificateBlock
  | der :: _ => .ok [der]

def Address.subtree : Address → GeneralSubtree
  | .ip addr => .ipAddress (.fromAddrPrefix addr (CertInfo.addressBits addr))
  | .dns name => .dnsName name

variable (addresses : List Address)

def caParams (draw : Draw lib) : CertificateParams where
  distinguishedName :=
    [(.commonName, "Abyssal Arsenal Internal CA " ++ draw.date ++ ' ' :: draw.shortId),
      (.organizationName, "Abyssal Arsenal")]
  isCa := .ca 0
  keyUsages := [.keyCertSign, .crlSign]
  extendedKeyUsages := []
  subjectAltNames := []
  permittedSubtrees := some (addresses.map Address.subtree)
  notBefore := draw.now - 3600
  notAfter := draw.now + caDays * 86400
  serialNumber := draw.serial

def createCaAt (draw : Draw lib) : Except CaError (Material lib) := do
  ensure (addresses ≠ []) .noAddressForCa
  let key ← orFail draw.key .caKeyNotGenerated
  let chance ← orFail draw.chance .caNotSigned
  return ⟨[lib.selfSigned (caParams addresses draw) key chance], lib.serializePem key⟩

/-- The alternative name for an address. A name that is not ASCII is refused. -/
def Address.san : Address → Except CaError SanType
  | .ip addr => .ok (.ipAddress addr)
  | .dns name =>
    if name.all (fun c => c.toNat < 128) then .ok (.dnsName name) else .error .invalidName

def serverParams (sans : List SanType) (draw : Draw lib) : CertificateParams where
  distinguishedName :=
    let first := (addresses.head?.map Address.display).getD []
    [(.commonName, if byteLength first ≤ 64 then first else "Abyssal Arsenal")]
  isCa := .explicitNoCa
  keyUsages := [.digitalSignature]
  extendedKeyUsages := [.serverAuth]
  subjectAltNames := sans
  permittedSubtrees := none
  notBefore := draw.now - 3600
  notAfter := draw.now + leafDays * 86400
  serialNumber := draw.serial

/-- The issuer has the subject of the authority's certificate and signs with the key that it is
given. -/
def issueServerCertAt (ca : Material lib) (addresses : List Address) (draw : Draw lib) :
    Except CaError (Material lib) := do
  ensure (addresses ≠ []) .noAddressForServer
  let caKey ← orFail (lib.fromPem ca.keyPem) .caKeyUnreadable
  let caInfo ← inspect lib ca.certPem
  ensure (caInfo.isCa = true) .notACa
  addresses.forM fun address =>
    ensure (caInfo.permits address = true) (.notPermitted caInfo.permitted address)
  let issuer ← orFail (certificate lib ca.certPem) .notAnX509Certificate
  let key ← orFail draw.key .serverKeyNotGenerated
  let sans ← addresses.mapM Address.san
  let chance ← orFail draw.chance .serverNotSigned
  let chain ← firstPemBlock ca.certPem
  return ⟨lib.signedBy (serverParams addresses sans draw) key issuer.subject caKey chance :: chain,
    lib.serializePem key⟩

/-! ### What is read of what was made -/

open ParsedExtension

private theorem foldl_add (extensions : List ParsedExtension) (found : Findings) :
    extensions.foldl Findings.add found = ⟨(extensions.filterMap ca?).getLastD found.isCa,
        found.sans ++ (extensions.flatMap alternativeNames).filterMap sanText,
        found.permitted ++ (extensions.flatMap permittedNames).filterMap subtreeText⟩ := by
  induction extensions generalizing found with
  | nil => simp
  | cons extension _ ih =>
    rw [List.foldl_cons, ih]
    cases extension <;>
      simp only [Findings.add, List.filterMap_cons, ca?, List.getLastD_cons,
        List.flatMap_cons, alternativeNames, permittedNames,
        List.nil_append, List.filterMap_append, List.append_assoc]

theorem inspect_signedBy (params : CertificateParams) (key : lib.PrivateKey)
    (issuer : DistinguishedName) (issuerKey : lib.PrivateKey) (chance : lib.Chance)
    (rest : Pem lib) :
    inspect lib (lib.signedBy params key issuer issuerKey chance :: rest) = .ok {
        subject := (commonName params.distinguishedName).getD []
        notBefore := params.notBefore
        notAfter := params.notAfter
        isCa := params.isCa.toBool
        sans := (params.subjectAltNames.map SanType.generalName).filterMap sanText
        permitted := ((params.permittedSubtrees.getD []).map
          GeneralSubtree.generalName).filterMap subtreeText
        fingerprint := lib.fingerprint (lib.signedBy params key issuer issuerKey chance) } := by
  have hfaithful := lib.faithful params
  rw [inspect, lib.decode_signedBy]
  dsimp only [Library.tbsCertificate]
  rw [foldl_add, hfaithful.ca, hfaithful.alternativeNames, hfaithful.permittedNames]
  rfl

theorem ipFromBytes_octets (addr : IpAddr) : ipFromBytes addr.octets = some addr := by
  cases addr with
  | v4 => rfl
  | v6 ip =>
    rw [ipFromBytes, ip.length_octets]
    show (Ipv6Addr.ofOctets (IpAddr.octets (.v6 ip))).map IpAddr.v6 = some (.v6 ip)
    rw [ip.ofOctets_octets, map_some]

def Address.constraintText : Address → Text
  | .ip addr => addr.display ++ '/' :: ofNat (CertInfo.addressBits addr)
  | .dns name => name

open CertInfo

private theorem cidrFromBytes_fromAddrPrefix (addr : IpAddr) :
    cidrFromBytes (addr.octets ++ maskBytes addr.octets.length (addressBits addr)) =
      some (addr.display ++ '/' :: ofNat (addressBits addr)) := by
  have hmask : ∀ n bits, (maskBytes n bits).length = n := by
    intro n
    induction n with
    | zero => exact fun bits => rfl
    | succ n ih => exact fun bits => congrArg (· + 1) (ih (bits - 8))
  have hhalf : (addr.octets ++ maskBytes addr.octets.length
      (addressBits addr)).length / 2 = addr.octets.length := by
    rw [List.length_append, hmask]
    omega
  have hbits : (maskBytes addr.octets.length (addressBits addr)).foldl
      (fun n byte => n + countOnes byte) 0 = addressBits addr := by
    cases addr with
    | v4 =>
      show (maskBytes 4 32).foldl (fun n byte => n + countOnes byte) 0 = 32
      decide
    | v6 ip =>
      rw [ip.length_octets]
      show (maskBytes 16 128).foldl (fun n byte => n + countOnes byte) 0 = 128
      decide
  rw [cidrFromBytes]
  dsimp only
  rw [hhalf, List.take_left, List.drop_left, ipFromBytes_octets, hbits]
  rfl

private theorem subtreeText_subtree (a : Address) :
    subtreeText a.subtree.generalName = some a.constraintText := by
  cases a with
  | ip addr => exact cidrFromBytes_fromAddrPrefix addr
  | dns => rfl

open Address

variable {addresses : List Address} {draw : Draw lib} {ca : Material lib}

theorem inspect_of_createCaAt (h : createCaAt addresses draw = .ok ca) :
    ∃ info, inspect lib ca.certPem = .ok info ∧ info.isCa ∧
      info.permitted = addresses.map constraintText := by
  rw [createCaAt] at h
  obtain ⟨-, h⟩ := ensure_bind_eq_ok.1 h
  obtain ⟨key, -, h⟩ := bind_eq_ok.1 h
  obtain ⟨_, -, h⟩ := bind_eq_ok.1 h
  cases h
  refine ⟨_, inspect_signedBy _ _ _ _ _ _, rfl, ?_⟩
  have htexts : subtreeText ∘ GeneralSubtree.generalName ∘ subtree =
      some ∘ constraintText := funext subtreeText_subtree
  simp only [caParams, getD_some, List.map_map, List.filterMap_map, htexts]
  rw [List.filterMap_eq_map]

variable {a : Address}

theorem Address.Canonical.parse_constraintText (h : a.Canonical) :
    parse ((splitOn '/' a.constraintText).headD a.constraintText) = .ok a := by
  have hslash : '/' ∉ a.display := fun hmem => (h.forall_mem '/' hmem).2 rfl
  have hparse := h.parse_display
  cases a with
  | ip =>
    rw [display] at hslash hparse
    rw [constraintText, splitOn_append_cons hslash, List.headD_cons, hparse]
  | dns =>
    rw [display] at hslash hparse
    rw [constraintText, splitOn_of_not_mem hslash, List.headD_cons, hparse]

variable {info : CertInfo}

theorem permittedAddresses_eq (hinfo : info.permitted = addresses.map constraintText)
    (hcanonical : ∀ a ∈ addresses, a.Canonical) : info.permittedAddresses = addresses := by
  rw [permittedAddresses, hinfo, List.filterMap_map]
  refine (List.filterMap_congr fun a ha => ?_).trans List.filterMap_some
  rw [Function.comp_apply, (hcanonical a ha).parse_constraintText]
  rfl

theorem permits_of_mem (hinfo : info.permitted = addresses.map constraintText)
    (ha : a ∈ addresses) : info.permits a := by
  have hmem : a.constraintText ∈ info.permitted := hinfo ▸ List.mem_map_of_mem ha
  rw [permits, Bool.or_eq_true]
  refine .inr (List.any_eq_true.2 ⟨a.constraintText, hmem, ?_⟩)
  cases a with
  | ip => exact decide_eq_true rfl
  | dns => exact Bool.or_eq_true_iff.2 (.inl (decide_eq_true rfl))

/-! ### Server certificates -/

def Address.sanType : Address → SanType
  | .ip addr => .ipAddress addr
  | .dns name => .dnsName name

theorem Address.sanType_of_san {san : SanType} (h : a.san = .ok san) : san = a.sanType := by
  cases a with
  | ip => exact (Except.ok.inj h).symm
  | dns =>
    rw [Address.san] at h
    split_ifs at h
    exact (Except.ok.inj h).symm

theorem Address.Canonical.san_eq (h : a.Canonical) : a.san = .ok a.sanType := by
  cases a with
  | ip => rfl
  | dns =>
    rw [san, if_pos]
    · rfl
    · refine List.all_eq_true.2 fun c hc => decide_eq_true ?_
      have hgraphic := (h.forall_mem c hc).1
      simp only [isAsciiGraphic, Bool.and_eq_true, decide_eq_true_eq] at hgraphic
      omega

theorem sanText_sanType (a : Address) : sanText a.sanType.generalName = some a.display := by
  cases a with
  | ip addr =>
    show (ipFromBytes addr.octets).map IpAddr.display = some addr.display
    rw [ipFromBytes_octets, map_some]
  | dns => rfl

def serverCert (addresses : List Address) (draw : Draw lib) (issuer : DistinguishedName)
    (caKey key : lib.PrivateKey) (chance : lib.Chance) : lib.Der :=
  lib.signedBy (serverParams addresses (addresses.map Address.sanType) draw) key issuer caKey
    chance

variable {server : Material lib}

theorem of_issueServerCertAt (h : issueServerCertAt ca addresses draw = .ok server) :
    ∃ caKey issuer key chance chain, lib.fromPem ca.keyPem = some caKey ∧
      certificate lib ca.certPem = some issuer ∧ draw.key = some key ∧
      server = ⟨serverCert addresses draw issuer.subject caKey key chance :: chain,
        lib.serializePem key⟩ := by
  rw [issueServerCertAt] at h
  obtain ⟨-, h⟩ := ensure_bind_eq_ok.1 h
  obtain ⟨caKey, hcaKey, h⟩ := bind_eq_ok.1 h
  obtain ⟨_, -, h⟩ := bind_eq_ok.1 h
  obtain ⟨-, h⟩ := ensure_bind_eq_ok.1 h
  obtain ⟨-, -, h⟩ := bind_eq_ok.1 h
  obtain ⟨issuer, hissuer, h⟩ := bind_eq_ok.1 h
  obtain ⟨key, hkey, h⟩ := bind_eq_ok.1 h
  obtain ⟨sans, hsans, h⟩ := bind_eq_ok.1 h
  obtain ⟨chance, -, h⟩ := bind_eq_ok.1 h
  obtain ⟨chain, hchain, h⟩ := bind_eq_ok.1 h
  obtain ⟨-, rfl⟩ := mapM_eq_ok (P := fun _ => True)
    (fun a san ha => ⟨trivial, sanType_of_san ha⟩) hsans
  exact ⟨caKey, issuer, key, chance, chain, orFail_eq_ok.1 hcaKey, orFail_eq_ok.1 hissuer,
    orFail_eq_ok.1 hkey,
    (Except.ok.inj h).symm⟩

theorem inspect_of_issueServerCertAt (h : issueServerCertAt ca addresses draw = .ok server) :
    ∃ info, inspect lib server.certPem = .ok info ∧ (∀ a ∈ addresses, info.covers a) ∧
      info.notAfter = draw.now + leafDays * 86400 := by
  obtain ⟨_, _, _, _, _, -, -, -, rfl⟩ := of_issueServerCertAt h
  refine ⟨_, inspect_signedBy _ _ _ _ _ _, fun a ha => ?_, rfl⟩
  have hsans : ((addresses.map sanType).map SanType.generalName).filterMap sanText =
      addresses.map display := by
    rw [List.map_map, List.filterMap_map]
    have htexts : sanText ∘ SanType.generalName ∘ sanType = some ∘ display := funext sanText_sanType
    rw [htexts, List.filterMap_eq_map]
  rw [covers]
  dsimp only [serverParams]
  rw [hsans]
  exact List.any_eq_true.2 ⟨a.display, List.mem_map_of_mem ha, decide_eq_true rfl⟩

variable {caKey : lib.PrivateKey}

theorem issuedBy_of_issueServerCertAt (h : issueServerCertAt ca addresses draw = .ok server)
    {cert : Certificate lib.PublicKey lib.Signature}
    (hkey : lib.fromPem ca.keyPem = some caKey) (hcert : certificate lib ca.certPem = some cert)
    (hbelongs : lib.publicKey caKey = cert.publicKey) : issuedBy lib server.certPem ca.certPem := by
  obtain ⟨caKey', issuer, key, chance, chain, hkey', hissuer, -, rfl⟩ := of_issueServerCertAt h
  obtain rfl : caKey' = caKey := some.inj (hkey'.symm.trans hkey)
  obtain rfl : issuer = cert := some.inj (hissuer.symm.trans hcert)
  have hleaf : certificate lib (serverCert addresses draw issuer.subject caKey' key chance ::
      chain) = some _ := lib.decode_signedBy _ _ _ _ _
  rw [issuedBy, hleaf, hcert]
  dsimp only
  rw [← hbelongs, lib.verify_sign, Bool.and_true]
  exact decide_eq_true rfl

theorem exists_issueServerCertAt (hne : addresses ≠ []) (hcanonical : ∀ a ∈ addresses, a.Canonical)
    (hkey : lib.fromPem ca.keyPem = some caKey)
    (hinfo : inspect lib ca.certPem = .ok info) (hca : info.isCa)
    (hpermits : ∀ a ∈ addresses, info.permits a) (hdraw : draw.key ≠ none)
    (hchance : draw.chance ≠ none) :
    ∃ server, issueServerCertAt ca addresses draw = .ok server := by
  obtain ⟨key, hdrawn⟩ := ne_none_iff_exists'.1 hdraw
  obtain ⟨chance, hsigned⟩ := ne_none_iff_exists'.1 hchance
  obtain ⟨der, rest, hpem⟩ : ∃ der rest, ca.certPem = der :: rest := by
    cases hpem : ca.certPem with
    | nil =>
      rw [hpem] at hinfo
      cases hinfo
    | cons der rest => exact ⟨der, rest, rfl⟩
  obtain ⟨issuer, hissuer⟩ : ∃ issuer, certificate lib ca.certPem = some issuer := by
    rw [hpem, inspect] at hinfo
    cases hdecode : lib.decode der with
    | none =>
      rw [hdecode] at hinfo
      cases hinfo
    | some cert => exact ⟨cert, by rw [hpem]; exact hdecode⟩
  refine ⟨⟨[serverCert addresses draw issuer.subject caKey key chance, der],
    lib.serializePem key⟩, ?_⟩
  rw [issueServerCertAt]
  refine ensure_bind_eq_ok.2 ⟨hne, ?_⟩
  refine bind_eq_ok.2 ⟨caKey, orFail_eq_ok.2 hkey, ?_⟩
  refine bind_eq_ok.2 ⟨info, hinfo, ?_⟩
  refine ensure_bind_eq_ok.2 ⟨hca, ?_⟩
  refine bind_eq_ok.2 ⟨(), forM_of_forall fun a ha => ensure_of (hpermits a ha), ?_⟩
  refine bind_eq_ok.2 ⟨issuer, orFail_eq_ok.2 hissuer, ?_⟩
  refine bind_eq_ok.2 ⟨key, orFail_eq_ok.2 hdrawn, ?_⟩
  refine bind_eq_ok.2 ⟨_, mapM_of_forall fun a ha => (hcanonical a ha).san_eq, ?_⟩
  refine bind_eq_ok.2 ⟨chance, orFail_eq_ok.2 hsigned, ?_⟩
  refine bind_eq_ok.2 ⟨[der], by rw [hpem]; rfl, ?_⟩
  rfl

end Abyssal.InternalTls
