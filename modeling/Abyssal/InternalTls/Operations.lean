import Abyssal.InternalTls.Authority
import Abyssal.Files.Pairs

/-!
# The stored certificates of the control plane

The active authority, a pending one and the server certificate are stored as pairs of files. An
operation is given by its script: the files that it writes and removes, in order, and its result. It
is a function of the files when it takes the lock.
-/

namespace Abyssal.InternalTls

open Files X509

/-- The pairs of files: `ca.pem` and `ca.key`, `pending-ca.pem` and `pending-ca.key`, `cert.pem`
and `key.pem`. -/
inductive Slot
  | ca
  | pending
  | server
  deriving DecidableEq

variable (lib : Library)

abbrev CertFiles := Store Slot lib.KeyPem (Pem lib) Text

abbrev CertAction := Action Slot lib.KeyPem (Pem lib) Text

inductive TlsError
  | invalidSeed (seed : Text) (error : AddressError)
  | ca (error : CaError)
  | noCaToIssueFrom
  | noCaToRotate
  | noPendingCa
  | caddy (message : String)

abbrev TlsScript := Script (CertAction lib) TlsError

variable {lib}

def fromCa {α : Type} (x : Except CaError α) : TlsScript lib α :=
  .compute (x.mapError TlsError.ca)

variable (files : CertFiles lib) (slot : Slot)

def loadPair : Option (Material lib) :=
  match files.cert slot, files.key slot with
  | some certPem, some keyPem => some ⟨certPem, keyPem⟩
  | _, _ => none

/-! ### Status -/

inductive RenewalReason
  | noServerCertificate
  | notIssuedByCa
  | notCovered
  | expires (days : ℤ)

/-- `Status`, without the problems that are shown to an administrator. -/
structure Status where
  managed : Bool
  ca : Option CertInfo
  pending : Option CertInfo
  server : Option CertInfo
  addresses : List Address
  renewalDue : Option RenewalReason

def seedAddresses (variable_ : Option Text) : Option Text :=
  variable_.filter fun value => !(Text.trim value).isEmpty

def isManaged (seed : Option Text) : Bool :=
  (files.cert .ca).isSome || (seedAddresses seed).isSome

def inspectSlot : Option CertInfo :=
  (files.cert slot).bind fun pem => (inspect lib pem).toOption

def caAddresses : List Address :=
  ((inspectSlot files .ca).map CertInfo.permittedAddresses).getD []

/-- The part of `status` that decides on a renewal. -/
def renewalDue (now : ℤ) : Option RenewalReason :=
  match files.cert .ca, files.cert .server, inspectSlot files .server with
  | none, _, _ => none
  | some _, none, _ => some .noServerCertificate
  | some _, some _, none => some .noServerCertificate
  | some caPem, some serverPem, some server =>
    if !issuedBy lib serverPem caPem then some .notIssuedByCa
    else if !(caAddresses files).all server.covers then some .notCovered
    else if server.daysLeft now < renewWithinDays then
      some (.expires (if server.daysLeft now < 0 then 0 else server.daysLeft now))
    else none

def status (seed : Option Text) (now : ℤ) : Status where
  managed := isManaged files seed
  ca := inspectSlot files .ca
  pending := inspectSlot files .pending
  server := inspectSlot files .server
  addresses := caAddresses files
  renewalDue := renewalDue files now

/-! ### Operations -/

/-- A pair is written: the key first, so that a reader that sees the new certificate also finds
its key. -/
def writePair (material : Material lib) : TlsScript lib Unit := do
  .perform (.writeKey slot material.keyPem)
  .perform (.writeCert slot material.certPem)

abbrev ReloadAnswer := Except String Unit

def reloadCaddy (answer : ReloadAnswer) : TlsScript lib Unit :=
  .compute (answer.mapError TlsError.caddy)

/-- `renew_server_cert`, with the answer to the reload if one is asked for. -/
def renewServerCert (draw : Draw lib) (reload : Option ReloadAnswer) : TlsScript lib CertInfo := do
  let authority ← .compute (orFail (loadPair files .ca) .noCaToIssueFrom)
  let info ← fromCa (inspect lib authority.certPem)
  let server ← fromCa (issueServerCertAt authority info.permittedAddresses draw)
  writePair .server server
  match reload with
  | some answer => reloadCaddy answer
  | none => pure ()
  fromCa (inspect lib server.certPem)

def renewIfDue (now : ℤ) (draw : Draw lib)
    (reload : Option ReloadAnswer) : TlsScript lib (Option RenewalReason) :=
  match renewalDue files now with
  | none => pure none
  | some reason => do
    let _ ← renewServerCert files draw reload
    return some reason

inductive StartupNote
  | created (addresses : List Address) (fingerprint : Text)
  | renewed (reason : RenewalReason)

def ensureAtStartup (seed : Option Text) (now : ℤ)
    (caDraw serverDraw : Draw lib) : TlsScript lib (Option StartupNote) :=
  if isManaged files seed then
    match files.cert .ca with
    | none => do
      let seed := (seedAddresses seed).getD []
      let addresses ← .compute ((parseAddresses seed).mapError (TlsError.invalidSeed seed))
      let authority ← fromCa (createCaAt addresses caDraw)
      writePair .ca authority
      let server ← fromCa (issueServerCertAt authority addresses serverDraw)
      writePair .server server
      let info ← fromCa (inspect lib authority.certPem)
      return some (.created addresses info.fingerprint)
    | some _ => do
      let reason ← renewIfDue files now serverDraw none
      return reason.map StartupNote.renewed
  else pure none

def beginRotation (addresses : List Address) (draw : Draw lib) : TlsScript lib CertInfo := do
  .compute (ensure (files.cert .ca ≠ none) .noCaToRotate)
  let pending ← fromCa (createCaAt addresses draw)
  writePair .pending pending
  fromCa (inspect lib pending.certPem)

def cancelRotation : TlsScript lib Unit := do
  .perform (.removeCert .pending)
  .perform (.removeKey .pending)

/-- The active authority is put aside under its fingerprint, if it can be read. -/
def retire : TlsScript lib Unit :=
  match files.cert .ca with
  | none => pure ()
  | some old =>
    match inspect lib old with
    | .ok info => .perform (.putAside info.fingerprint old)
    | .error _ => pure ()

def activateRotation (draw : Draw lib) (reload : ReloadAnswer) : TlsScript lib CertInfo := do
  let pending ← .compute (orFail (loadPair files .pending) .noPendingCa)
  let info ← fromCa (inspect lib pending.certPem)
  let server ← fromCa (issueServerCertAt pending info.permittedAddresses draw)
  retire files
  writePair .ca pending
  writePair .server server
  cancelRotation
  reloadCaddy reload
  return info

/-- The operations that make an authority or issue a server certificate, with what they are
given. -/
inductive Operation (lib : Library)
  | ensureAtStartup (seed : Option Text) (now : ℤ) (caDraw serverDraw : Draw lib)
  | renewServerCert (draw : Draw lib) (reload : Option ReloadAnswer)
  | beginRotation (addresses : List Address) (draw : Draw lib)
  | activateRotation (draw : Draw lib) (reload : ReloadAnswer)

namespace Operation

def actions : Operation lib → List (CertAction lib)
  | ensureAtStartup seed now caDraw serverDraw =>
    (InternalTls.ensureAtStartup files seed now caDraw serverDraw).actions
  | renewServerCert draw reload => (InternalTls.renewServerCert files draw reload).actions
  | beginRotation addresses draw => (InternalTls.beginRotation files addresses draw).actions
  | activateRotation draw reload => (InternalTls.activateRotation files draw reload).actions

def succeeds : Operation lib → Bool
  | ensureAtStartup seed now caDraw serverDraw =>
    (InternalTls.ensureAtStartup files seed now caDraw serverDraw).result.isOk
  | renewServerCert draw reload => (InternalTls.renewServerCert files draw reload).result.isOk
  | beginRotation addresses draw => (InternalTls.beginRotation files addresses draw).result.isOk
  | activateRotation draw reload => (InternalTls.activateRotation files draw reload).result.isOk

end Operation

/-! ### What an operation writes -/

def pairOf (material : Material lib) : Pair Slot lib.KeyPem (Pem lib) :=
  ⟨slot, material.keyPem, material.certPem⟩

def dropPending : List (CertAction lib) := [.removeCert .pending, .removeKey .pending]

theorem fromCa_ok_bind {α β : Type} (a : α) (f : α → TlsScript lib β) :
    (fromCa (.ok a) >>= f) = f a := rfl

theorem fromCa_bind_cases {α β : Type} (x : Except CaError α) (f : α → TlsScript lib β) :
    (∃ e, (fromCa x >>= f) = ⟨[], .error e⟩) ∨ ∃ a, x = .ok a ∧ (fromCa x >>= f) = f a := by
  cases x with
  | error => exact .inl ⟨_, rfl⟩
  | ok a => exact .inr ⟨a, rfl, rfl⟩

theorem compute_bind_cases {α β : Type} (x : Except TlsError α) (f : α → TlsScript lib β) :
    (∃ e, (Script.compute x >>= f) = ⟨[], .error e⟩) ∨
      ∃ a, x = .ok a ∧ (Script.compute x >>= f) = f a := by
  cases x with
  | error e => exact .inl ⟨e, rfl⟩
  | ok a => exact .inr ⟨a, rfl, rfl⟩

structure IssuesFrom (draw : Draw lib) (authority server : Material lib) : Prop where
  cert : files.cert slot = some authority.certPem
  key : files.key slot = some authority.keyPem
  issued : ∃ info, inspect lib authority.certPem = .ok info ∧
    issueServerCertAt authority info.permittedAddresses draw = .ok server

theorem of_loadPair {files : CertFiles lib} {slot : Slot} {material : Material lib}
    (h : loadPair files slot = some material) :
    files.cert slot = some material.certPem ∧ files.key slot = some material.keyPem := by
  rw [loadPair] at h
  split at h
  · next hcert hkey =>
    cases h
    exact ⟨hcert, hkey⟩
  · cases h

theorem actions_renewServerCert (draw : Draw lib) (reload : Option ReloadAnswer) :
    (∃ e, renewServerCert files draw reload = ⟨[], .error e⟩) ∨
      ∃ authority server, IssuesFrom files .ca draw authority server ∧
        (renewServerCert files draw reload).actions = storeAll [pairOf .server server] := by
  rw [renewServerCert]
  rcases compute_bind_cases (orFail (loadPair files .ca) .noCaToIssueFrom) _ with
    herror | ⟨authority, hauthority, h₁⟩
  · exact .inl herror
  rw [h₁]
  rcases fromCa_bind_cases (inspect lib authority.certPem) _ with herror | ⟨info, hinfo, h₂⟩
  · exact .inl herror
  rw [h₂]
  rcases fromCa_bind_cases (issueServerCertAt authority info.permittedAddresses draw) _ with
    herror | ⟨server, hserver, h₃⟩
  · exact .inl herror
  rw [h₃]
  obtain ⟨hcert, hkey⟩ := of_loadPair (orFail_eq_ok.1 hauthority)
  refine .inr ⟨authority, server, ⟨hcert, hkey, info, hinfo, hserver⟩, ?_⟩
  cases reload with
  | none => rfl
  | some answer => cases answer <;> rfl

theorem actions_ensureAtStartup_of_none {files : CertFiles lib} (hca : files.cert .ca = none)
    {seed : Option Text} (hmanaged : isManaged files seed) (now : ℤ)
    (caDraw serverDraw : Draw lib) :
    (∃ e, ensureAtStartup files seed now caDraw serverDraw = ⟨[], .error e⟩) ∨
      ∃ addresses authority, parseAddresses ((seedAddresses seed).getD []) = .ok addresses ∧
        createCaAt addresses caDraw = .ok authority ∧
        ((∃ e, ensureAtStartup files seed now caDraw serverDraw =
            ⟨storeAll [pairOf .ca authority], .error e⟩) ∨
          ∃ server, issueServerCertAt authority addresses serverDraw = .ok server ∧
            (ensureAtStartup files seed now caDraw serverDraw).actions =
              storeAll [pairOf .ca authority, pairOf .server server]) := by
  rw [ensureAtStartup, hca, if_pos hmanaged]
  dsimp only
  rcases compute_bind_cases ((parseAddresses ((seedAddresses seed).getD [])).mapError
    (TlsError.invalidSeed ((seedAddresses seed).getD []))) _ with
    herror | ⟨addresses, hparse, h₁⟩
  · exact .inl herror
  rw [h₁]
  rcases fromCa_bind_cases (createCaAt addresses caDraw) _ with
    herror | ⟨authority, hcreate, h₂⟩
  · exact .inl herror
  rw [h₂]
  refine .inr ⟨addresses, authority, mapError_eq_ok.1 hparse, hcreate, ?_⟩
  rcases fromCa_bind_cases (issueServerCertAt authority addresses serverDraw) _ with
    ⟨e, herror⟩ | ⟨server, hserver, h₃⟩
  · rw [herror]
    exact .inl ⟨e, rfl⟩
  · rw [h₃]
    refine .inr ⟨server, hserver, ?_⟩
    rcases fromCa_bind_cases (inspect lib authority.certPem) _ with ⟨e, herror⟩ | ⟨info, -, h₄⟩
    · rw [herror]
      rfl
    · rw [h₄]
      rfl

theorem actions_beginRotation (addresses : List Address) (draw : Draw lib) :
    (beginRotation files addresses draw).actions = [] ∨
      ∃ pending, createCaAt addresses draw = .ok pending ∧
        (beginRotation files addresses draw).actions = storeAll [pairOf .pending pending] := by
  rw [beginRotation]
  rcases compute_bind_cases (ensure (files.cert .ca ≠ none) .noCaToRotate) _ with
    ⟨e, herror⟩ | ⟨_, -, h₁⟩
  · rw [herror]
    exact .inl rfl
  rw [h₁]
  rcases fromCa_bind_cases (createCaAt addresses draw) _ with ⟨e, herror⟩ | ⟨pending, hcreate, h₂⟩
  · rw [herror]
    exact .inl rfl
  rw [h₂]
  exact .inr ⟨pending, hcreate, rfl⟩

theorem actions_retire :
    (retire files).actions = [] ∧ inspectSlot files .ca = none ∨
      ∃ name old, (retire files).actions = [.putAside name old] ∧ inspectSlot files .ca ≠ none := by
  rw [retire, inspectSlot]
  cases files.cert .ca with
  | none => exact .inl ⟨rfl, rfl⟩
  | some old =>
    rw [Option.bind_some]
    dsimp only
    cases inspect lib old with
    | error => exact .inl ⟨rfl, rfl⟩
    | ok info => exact .inr ⟨info.fingerprint, old, rfl, nofun⟩

private theorem result_retire : (retire files).result = .ok () := by
  rw [retire]
  cases files.cert .ca with
  | none => rfl
  | some old =>
    dsimp only
    cases inspect lib old <;> rfl

theorem actions_activateRotation (draw : Draw lib) (reload : ReloadAnswer) :
    (∃ e, activateRotation files draw reload = ⟨[], .error e⟩) ∨
      ∃ pending server, IssuesFrom files .pending draw pending server ∧
        (activateRotation files draw reload).actions = (retire files).actions ++
            (storeAll [pairOf .ca pending, pairOf .server server] ++ dropPending) := by
  rw [activateRotation]
  rcases compute_bind_cases (orFail (loadPair files .pending) .noPendingCa) _ with
    herror | ⟨pending, hpending, h₁⟩
  · exact .inl herror
  rw [h₁]
  rcases fromCa_bind_cases (inspect lib pending.certPem) _ with herror | ⟨info, hinfo, h₂⟩
  · exact .inl herror
  rw [h₂]
  rcases fromCa_bind_cases (issueServerCertAt pending info.permittedAddresses draw) _ with
    herror | ⟨server, hserver, h₃⟩
  · exact .inl herror
  rw [h₃]
  obtain ⟨hcert, hkey⟩ := of_loadPair (orFail_eq_ok.1 hpending)
  refine .inr ⟨pending, server, ⟨hcert, hkey, info, hinfo, hserver⟩, ?_⟩
  rw [Script.bind_of_ok (result_retire files)]
  cases reload <;> rfl

end Abyssal.InternalTls
