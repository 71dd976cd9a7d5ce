import Abyssal.InternalTls.Operations

/-!
# Renewal of the server certificate

A sweep issues the server certificate again when it has less than thirty days left, was not issued
by the active authority, or does not cover every address that the authority is constrained to. The
addresses go through text on both sides.

## Main results

* `settled_of_succeeds`: a renewal leaves nothing to renew.
-/

namespace Abyssal.InternalTls

open Files X509 Option List

variable {lib : Library}

/-! ### When a renewal is due -/

/-- The stored server certificate needs no renewal at a time. -/
structure Current (files : CertFiles lib) (info : CertInfo) : Prop where
  server : inspectSlot files .server = some info
  issued : ∀ caPem serverPem, files.cert .ca = some caPem → files.cert .server = some serverPem →
    issuedBy lib serverPem caPem = true
  covers : ∀ a ∈ caAddresses files, info.covers a = true

variable {files : CertFiles lib} {now : ℤ}

theorem Current.renewalDue {info : CertInfo} (h : Current files info)
    (hdays : renewWithinDays ≤ info.daysLeft now) : renewalDue files now = none := by
  have hcovers : (caAddresses files).all info.covers := all_eq_true.2 h.covers
  rw [InternalTls.renewalDue, h.server]
  cases hca : files.cert .ca with
  | none => rfl
  | some caPem =>
    cases hserver : files.cert .server with
    | none =>
      have hinspect := h.server
      rw [inspectSlot, hserver] at hinspect
      cases hinspect
    | some serverPem =>
      dsimp only
      rw [h.issued caPem serverPem hca hserver, hcovers, Bool.not_true,
        if_neg Bool.false_ne_true, if_neg Bool.false_ne_true, if_neg (Int.not_lt.2 hdays)]

theorem current_of_renewalDue {caPem : Pem lib}
    (hca : files.cert .ca = some caPem) (h : renewalDue files now = none) :
    ∃ info, Current files info ∧ renewWithinDays ≤ info.daysLeft now := by
  rw [renewalDue, hca] at h
  cases hserver : files.cert .server with
  | none =>
    rw [hserver] at h
    cases h
  | some =>
    cases hinfo : inspectSlot files .server with
    | none =>
      rw [hserver, hinfo] at h
      cases h
    | some info =>
      rw [hserver, hinfo] at h
      dsimp only at h
      split_ifs at h with hissued hcovers hdays
      rw [Bool.not_eq_true, Bool.not_eq_false'] at hissued hcovers
      refine ⟨info, ⟨hinfo, ?_, all_eq_true.1 hcovers⟩, Int.not_lt.1 hdays⟩
      intro caPem' serverPem' hca' hserver'
      rw [hca] at hca'
      rw [hserver] at hserver'
      rwa [← some.inj hca', ← some.inj hserver']

/-- No renewal is due before the server certificate has fewer than `RENEW_WITHIN_DAYS` days left. -/
def Settled (files : CertFiles lib) (now : ℤ) : Prop :=
  ∃ info, inspectSlot files .server = some info ∧ renewWithinDays ≤ info.daysLeft now ∧
    ∀ later, renewWithinDays ≤ info.daysLeft later →
      (∀ seed, (status files seed later).renewalDue = none) ∧
        ∀ draw reload, renewIfDue files later draw reload = ⟨[], .ok none⟩

theorem Current.settled {info : CertInfo} (h : Current files info)
    (hdays : renewWithinDays ≤ info.daysLeft now) : Settled files now := by
  refine ⟨info, h.server, hdays, fun later hlater => ⟨fun seed => h.renewalDue hlater, ?_⟩⟩
  intro draw reload
  rw [renewIfDue, h.renewalDue hlater]
  rfl

/-! ### After a certificate was issued -/

def Stored (files : CertFiles lib) (slot : Slot) (addresses : List Address) : Prop :=
  ∃ (draw : Draw lib) (ca : Material lib), createCaAt addresses draw = .ok ca ∧
    files.cert slot = some ca.certPem ∧ files.key slot = some ca.keyPem

variable {addresses : List Address} {draw : Draw lib}

theorem key_of_createCaAt {ca : Material lib} (h : createCaAt addresses draw = .ok ca) :
    ∃ key cert, lib.fromPem ca.keyPem = some key ∧ certificate lib ca.certPem = some cert ∧
      lib.publicKey key = cert.publicKey := by
  rw [createCaAt] at h
  obtain ⟨-, h⟩ := ensure_bind_eq_ok.1 h
  obtain ⟨key, -, h⟩ := bind_eq_ok.1 h
  obtain ⟨_, -, h⟩ := bind_eq_ok.1 h
  cases h
  exact ⟨key, _, lib.fromPem_serializePem key, lib.decode_signedBy _ _ _ _ _, rfl⟩

theorem settled_of_issued (hcanonical : ∀ a ∈ addresses, a.Canonical)
    {caDraw : Draw lib} {ca server : Material lib} (hca : createCaAt addresses caDraw = .ok ca)
    (hserver : issueServerCertAt ca addresses draw = .ok server)
    (hcert : files.cert .ca = some ca.certPem) (hleaf : files.cert .server = some server.certPem) :
    Settled files draw.now := by
  obtain ⟨_, hcaInfo, -, hpermitted⟩ := inspect_of_createCaAt hca
  obtain ⟨info, hinfo, hcovers, hnotAfter⟩ := inspect_of_issueServerCertAt hserver
  obtain ⟨_, _, hkey, hcertificate, hbelongs⟩ := key_of_createCaAt hca
  have haddresses : caAddresses files = addresses := by
    rw [caAddresses, inspectSlot, hcert, bind_some, hcaInfo]
    exact permittedAddresses_eq hpermitted hcanonical
  have hcurrent : Current files info := by
    refine ⟨?_, ?_, by rwa [haddresses]⟩
    · rw [inspectSlot, hleaf, bind_some, hinfo]
      rfl
    · intro caPem serverPem hcaPem hserverPem
      rw [hcert] at hcaPem
      rw [hleaf] at hserverPem
      rw [← some.inj hcaPem, ← some.inj hserverPem]
      exact issuedBy_of_issueServerCertAt hserver hkey hcertificate hbelongs
  refine hcurrent.settled ?_
  rw [CertInfo.daysLeft, hnotAfter, renewWithinDays, leafDays]
  omega

theorem Stored.issued {slot : Slot}
    (hcanonical : ∀ a ∈ addresses, a.Canonical) (h : Stored files slot addresses)
    {authority server : Material lib} (hissues : IssuesFrom files slot draw authority server) :
    ∃ caDraw : Draw lib, createCaAt addresses caDraw = .ok authority ∧
      issueServerCertAt authority addresses draw = .ok server := by
  obtain ⟨caDraw, ca, hca, hcert, hkey⟩ := h
  obtain ⟨info, hinfo, hserver⟩ := hissues.issued
  obtain rfl : ca = authority := Material.ext (some.inj (hcert.symm.trans hissues.cert))
      (some.inj (hkey.symm.trans hissues.key))
  obtain ⟨_, hcaInfo, -, hpermitted⟩ := inspect_of_createCaAt hca
  cases hcaInfo.symm.trans hinfo
  rw [permittedAddresses_eq hpermitted hcanonical] at hserver
  exact ⟨caDraw, hca, hserver⟩

/-- Once the script has succeeded and all its actions were carried out, no renewal is due. -/
def Settles {α : Type} (files : CertFiles lib) (x : TlsScript lib α) (now : ℤ) : Prop :=
  x.result.isOk → ∀ fates, finished x.actions fates = x.actions.length →
    Settled (files.after x.actions fates) now

theorem Settles.congr {α β : Type} {x : TlsScript lib α} {y : TlsScript lib β}
    (h : Settles files y now) (hxy : x.actions = y.actions ∧ x.result.isOk = y.result.isOk) :
    Settles files x now := by
  rwa [Settles, hxy.1, hxy.2]

section Operations

variable {files : CertFiles lib} {addresses : List Address}
  (hcanonical : ∀ a ∈ addresses, a.Canonical) {fates : List Bool}

include hcanonical

variable {draw : Draw lib}

theorem settles_renewServerCert (hstored : Stored files .ca addresses)
    {reload : Option ReloadAnswer} :
    Settles files (renewServerCert files draw reload) draw.now := by
  intro hok fates hdone
  rcases actions_renewServerCert files draw reload with
    ⟨e, herror⟩ | ⟨authority, server, hissues, hactions⟩
  · rw [herror] at hok
    cases hok
  obtain ⟨_, hca, hserver⟩ := hstored.issued hcanonical hissues
  rw [hactions] at hdone ⊢
  rw [after_eq_of_finished hdone]
  exact settled_of_issued hcanonical hca hserver hissues.cert rfl

private theorem settled_of_storeAll {caDraw : Draw lib} {pending server : Material lib}
    (hca : createCaAt addresses caDraw = .ok pending)
    (hserver : issueServerCertAt pending addresses draw = .ok server)
    (hdone : finished (storeAll [pairOf .ca pending, pairOf .server server] ++ dropPending) fates =
      (storeAll [pairOf .ca pending, pairOf .server server] ++ dropPending).length) :
    Settled (files.after (storeAll [pairOf .ca pending, pairOf .server server] ++ dropPending)
      fates) draw.now := by
  have hremovals : ∀ slot, slot ≠ .pending → ∀ a ∈ (dropPending : List (CertAction lib)),
      ∃ other, other ≠ slot ∧ (a = .removeCert other ∨ a = .removeKey other) := by
    intro slot hslot a ha
    exact ⟨.pending, hslot.symm, by simpa [dropPending] using ha⟩
  obtain ⟨fates', hafter⟩ := exists_after_of_finished (s := files) hdone
  rw [hafter]
  refine settled_of_issued hcanonical hca hserver ?_ ?_
  · rw [(slot_after_removals (hremovals .ca nofun) fates' _).1]
    rfl
  · rw [(slot_after_removals (hremovals .server nofun) fates' _).1]
    rfl

theorem settles_activateRotation (hstored : Stored files .pending addresses)
    {reload : ReloadAnswer} : Settles files (activateRotation files draw reload) draw.now := by
  intro hok fates hdone
  rcases actions_activateRotation files draw reload with
    ⟨e, herror⟩ | ⟨pending, server, hissues, hactions⟩
  · rw [herror] at hok
    cases hok
  obtain ⟨_, hca, hserver⟩ := hstored.issued hcanonical hissues
  rw [hactions] at hdone ⊢
  rcases actions_retire files with ⟨hretire, -⟩ | ⟨name, old, hretire, -⟩
  · rw [hretire] at hdone ⊢
    exact settled_of_storeAll hcanonical hca hserver hdone
  · rw [hretire, singleton_append] at hdone ⊢
    rcases after_putAside_cons name old (storeAll [pairOf .ca pending, pairOf .server server] ++
      dropPending) fates files with ⟨-, hzero⟩ | ⟨t, fates', -, -, hafter, hrest⟩
    · exact absurd (hzero.symm.trans hdone) (Nat.succ_ne_zero _).symm
    · rw [hafter]
      exact settled_of_storeAll hcanonical hca hserver
        (Nat.succ.inj (hrest.symm.trans hdone))

theorem settles_ensureAtStartup {seed : Option Text} {now : ℤ} {caDraw serverDraw : Draw lib}
    (hca : files.cert .ca = none ∧ parseAddresses ((seedAddresses seed).getD []) = .ok addresses) :
    Settles files (ensureAtStartup files seed now caDraw serverDraw) serverDraw.now := by
  intro hok fates hdone
  have hmanaged : isManaged files seed := by
    cases hseed : seedAddresses seed with
    | none =>
      rw [hseed] at hca
      exact nomatch hca.2
    | some => rw [isManaged, hseed, isSome_some, Bool.or_true]
  rcases actions_ensureAtStartup_of_none hca.1 hmanaged now caDraw serverDraw with
    ⟨e, herror⟩ | ⟨seeded, authority, hseeded, hcreate, ⟨e, herror⟩ | ⟨server, hserver, hactions⟩⟩
  · rw [herror] at hok
    cases hok
  · rw [herror] at hok
    cases hok
  · cases hseeded.symm.trans hca.2
    rw [hactions] at hdone ⊢
    rw [after_eq_of_finished hdone]
    exact settled_of_issued hcanonical hcreate hserver rfl rfl

end Operations

namespace Operation

/-- The operation issues from an authority that was or is created for the addresses. -/
def IssuesFor (files : CertFiles lib) (addresses : List Address) : Operation lib → Prop
  | ensureAtStartup seed _ _ _ =>
    files.cert .ca = none ∧ parseAddresses ((seedAddresses seed).getD []) = .ok addresses ∨
      Stored files .ca addresses
  | renewServerCert _ _ => Stored files .ca addresses
  | beginRotation _ _ => False
  | activateRotation _ _ => Stored files .pending addresses

def lastReading (files : CertFiles lib) : Operation lib → ℤ
  | ensureAtStartup _ now _ serverDraw =>
    if files.cert .ca = none ∨ renewalDue files now ≠ none then serverDraw.now else now
  | renewServerCert draw _ => draw.now
  | beginRotation _ draw => draw.now
  | activateRotation draw _ => draw.now

end Operation

theorem ensureAtStartup_of_some {caPem : Pem lib}
    (hca : files.cert .ca = some caPem) (seed : Option Text) (now : ℤ)
    (caDraw serverDraw : Draw lib) :
    (ensureAtStartup files seed now caDraw serverDraw).actions =
        (renewIfDue files now serverDraw none).actions ∧
      (ensureAtStartup files seed now caDraw serverDraw).result.isOk =
        (renewIfDue files now serverDraw none).result.isOk := by
  have hmanaged : isManaged files seed := by
    rw [isManaged, hca, isSome_some, Bool.true_or]
  rw [ensureAtStartup, if_pos hmanaged, hca]
  exact ⟨Script.actions_bind_pure _ _, Script.isOk_bind_pure _ _⟩

theorem renewIfDue_of_some {reason : RenewalReason}
    (hdue : renewalDue files now = some reason) (draw : Draw lib) (reload : Option ReloadAnswer) :
    (renewIfDue files now draw reload).actions = (renewServerCert files draw reload).actions ∧
      (renewIfDue files now draw reload).result.isOk =
        (renewServerCert files draw reload).result.isOk := by
  rw [renewIfDue, hdue]
  exact ⟨Script.actions_bind_pure _ fun _ => some reason,
    Script.isOk_bind_pure _ fun _ => some reason⟩

private theorem settles_ensureAtStartup_of_stored
    (hcanonical : ∀ a ∈ addresses, a.Canonical) (hstored : Stored files .ca addresses)
    {seed : Option Text} {caDraw serverDraw : Draw lib} :
    Settles files (ensureAtStartup files seed now caDraw serverDraw)
      (if renewalDue files now ≠ none then serverDraw.now else now) := by
  obtain ⟨-, _, -, hca, -⟩ := id hstored
  refine .congr ?_ (ensureAtStartup_of_some hca seed now caDraw serverDraw)
  cases hdue : renewalDue files now with
  | none =>
    obtain ⟨_, hcurrent, hdays⟩ := current_of_renewalDue hca hdue
    rw [renewIfDue, hdue]
    exact fun _ _ _ => hcurrent.settled hdays
  | some =>
    rw [if_pos nofun]
    exact (settles_renewServerCert hcanonical hstored).congr
      (renewIfDue_of_some hdue serverDraw none)

/-- An authority finds its addresses again in its constraints and may issue for each; and after an
operation that issues from it has succeeded, no renewal is due before the certificate has fewer than
`RENEW_WITHIN_DAYS` days left. -/
theorem settled_of_succeeds {input : Text} {addresses : List Address}
    (h : parseAddresses input = .ok addresses) :
    (∀ (draw : Draw lib) (ca : Material lib), createCaAt addresses draw = .ok ca →
      ∃ info, inspect lib ca.certPem = .ok info ∧ info.permittedAddresses = addresses ∧
        ∀ a ∈ addresses, info.permits a) ∧
    ∀ (op : Operation lib) (files : CertFiles lib) (fates : List Bool),
      op.IssuesFor files addresses → op.succeeds files →
        finished (op.actions files) fates = (op.actions files).length →
          Settled (files.after (op.actions files) fates) (op.lastReading files) := by
  have hcanonical := (canonical_of_parseAddresses h).2
  constructor
  · intro draw ca hca
    obtain ⟨info, hinfo, -, hpermitted⟩ := inspect_of_createCaAt hca
    exact ⟨info, hinfo, permittedAddresses_eq hpermitted hcanonical,
      fun a ha => permits_of_mem hpermitted ha⟩
  · intro op files fates hissues hok hdone
    cases op with
    | ensureAtStartup seed now caDraw serverDraw =>
      rcases hissues with hca | hstored
      · have hlast : Operation.lastReading files
            (.ensureAtStartup seed now caDraw serverDraw) = serverDraw.now :=
          if_pos (.inl hca.1)
        rw [hlast]
        exact settles_ensureAtStartup hcanonical hca hok fates hdone
      · have hlast : Operation.lastReading files (.ensureAtStartup seed now caDraw serverDraw) =
            if renewalDue files now ≠ none then serverDraw.now else now := by
          obtain ⟨-, _, -, hca, -⟩ := id hstored
          rw [Operation.lastReading, hca]
          simp
        rw [hlast]
        exact settles_ensureAtStartup_of_stored hcanonical hstored hok fates hdone
    | renewServerCert =>
      exact settles_renewServerCert hcanonical hissues hok fates hdone
    | beginRotation => exact hissues.elim
    | activateRotation =>
      exact settles_activateRotation hcanonical hissues hok fates hdone

def sampleDraw (now : ℤ) (key : ℕ) : Draw Library.recording :=
  ⟨now, "2026-01-01", some key, some (), [1], "0a0b0c0d"⟩

def noFiles : CertFiles Library.recording := ⟨fun _ => none, fun _ => none, []⟩

def firstText : Text := "10.0.0.5, ::ffff:1.2.3.4 FE80::1 Arsenal.corp.local."

def firstStart : Operation Library.recording :=
  .ensureAtStartup (some firstText) 0 (sampleDraw 0 7) (sampleDraw 1 8)

def firstAddresses : List Address :=
  [.ip (.v4 ⟨10, 0, 0, 5⟩), .ip (.v6 ⟨[0, 0, 0, 0, 0, 0xffff, 0x102, 0x304], rfl⟩),
    .ip (.v6 ⟨[0xfe80, 0, 0, 0, 0, 0, 0, 1], rfl⟩), .dns "arsenal.corp.local"]

theorem parseAddresses_firstText : parseAddresses firstText = .ok firstAddresses := by rfl

theorem settled_of_succeeds_firstStart :
    Settled (noFiles.after (firstStart.actions noFiles) [true, true, true, true])
      (firstStart.lastReading noFiles) := by
  have hparse := parseAddresses_firstText
  exact (settled_of_succeeds hparse).2 firstStart noFiles _ (.inl ⟨rfl, hparse⟩) rfl rfl

end Abyssal.InternalTls
