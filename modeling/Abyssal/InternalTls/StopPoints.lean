import Abyssal.InternalTls.Renewal

/-!
# Where an operation on the certificates may stop

An operation replaces each pair in two writes: first its key, then its certificate. If it stops
between the two, the old certificate stands beside the new key.

## Main results

* `consistent_iff_not_exposed`: everywhere else the pairs are whole, and a renewal that follows
  leaves a server certificate that verifies under the active authority.
-/

namespace Abyssal.InternalTls

open Files X509 List

variable {lib : Library}

/-! ### Stored pairs -/

def Belongs (keyPem : lib.KeyPem) (pem : Pem lib) : Prop :=
  ∃ key cert, lib.fromPem keyPem = some key ∧ certificate lib pem = some cert ∧
    lib.publicKey key = cert.publicKey

def Made (pem : Pem lib) : Prop :=
  ∃ (input : Text) (addresses : List Address) (draw : Draw lib) (ca : Material lib),
    parseAddresses input = .ok addresses ∧ createCaAt addresses draw = .ok ca ∧ ca.certPem = pem

variable (files : CertFiles lib)

/-- Stored pairs match, an active authority has its key, and the authorities are ones that the
control plane makes. -/
structure Sound : Prop where
  agrees : ∀ slot, files.Agrees Belongs slot
  complete : files.Complete Belongs .ca
  ca : ∀ pem, files.cert .ca = some pem → Made pem
  pending : ∀ pem, files.cert .pending = some pem → Made pem

/-- After a renewal there is a server certificate that verifies under the active authority, if there
is one. It succeeds unless Caddy does not reload. -/
def Renews : Prop :=
  ∀ (now : ℤ) (draw : Draw lib) (reload : Option ReloadAnswer) (caPem : Pem lib),
    draw.key ≠ none → draw.chance ≠ none → files.cert .ca = some caPem →
      ∃ serverPem, (files.after (renewIfDue files now draw reload).actions
          ((renewIfDue files now draw reload).actions.map fun _ => true)).cert .server =
            some serverPem ∧
        issuedBy lib serverPem caPem = true ∧
        ((∀ message, reload ≠ some (.error message)) →
          (renewIfDue files now draw reload).result.isOk = true)

def Consistent : Prop :=
  (∀ slot, files.Agrees Belongs slot) ∧ Renews files

variable {draw : Draw lib} {addresses : List Address} {ca : Material lib}

theorem belongs_of_createCaAt
    (h : createCaAt addresses draw = .ok ca) : Belongs ca.keyPem ca.certPem :=
  key_of_createCaAt h

theorem belongs_of_issueServerCertAt {server : Material lib}
    (h : issueServerCertAt ca addresses draw = .ok server) :
    Belongs server.keyPem server.certPem := by
  obtain ⟨_, _, key, _, _, -, -, -, rfl⟩ := of_issueServerCertAt h
  exact ⟨key, _, lib.fromPem_serializePem key, lib.decode_signedBy _ _ _ _ _, rfl⟩

variable {files : CertFiles lib} {slot : Slot}

theorem exists_issuesFrom {pem : Pem lib}
    (hcert : files.cert slot = some pem) (hcomplete : files.Complete Belongs slot)
    (hmade : Made pem) (hkey : draw.key ≠ none) (hchance : draw.chance ≠ none) :
    ∃ authority server, loadPair files slot = some authority ∧ authority.certPem = pem ∧
      (∃ info, inspect lib pem = .ok info ∧
        issueServerCertAt authority info.permittedAddresses draw = .ok server) ∧
      issuedBy lib server.certPem pem := by
  obtain ⟨keyPem, hkeyPem, key, _, hfrom, hcertificate, hbelongs⟩ := hcomplete pem hcert
  obtain ⟨input, addresses, caDraw, ca, hparse, hcreate, rfl⟩ := hmade
  obtain ⟨hne, hcanonical⟩ := canonical_of_parseAddresses hparse
  obtain ⟨info, hinfo, hca, hpermitted⟩ := inspect_of_createCaAt hcreate
  have hload : loadPair files slot = some ⟨ca.certPem, keyPem⟩ := by
    rw [loadPair, hcert, hkeyPem]
  obtain ⟨server, hserver⟩ := @exists_issueServerCertAt lib addresses draw ⟨ca.certPem, keyPem⟩
    info key hne hcanonical hfrom hinfo hca (fun a ha => permits_of_mem hpermitted ha) hkey hchance
  have hverifies := issuedBy_of_issueServerCertAt hserver hfrom hcertificate hbelongs
  refine ⟨⟨ca.certPem, keyPem⟩, server, hload, rfl, ⟨info, hinfo, ?_⟩, hverifies⟩
  rwa [permittedAddresses_eq hpermitted hcanonical]

private theorem renewServerCert_of_ok {authority server : Material lib} {info : CertInfo}
    (hload : loadPair files .ca = some authority) (hinfo : inspect lib authority.certPem = .ok info)
    (hserver : issueServerCertAt authority info.permittedAddresses draw = .ok server)
    (reload : Option ReloadAnswer) :
    (renewServerCert files draw reload).actions = storeAll [pairOf .server server] ∧
      ((∀ message, reload ≠ some (.error message)) →
        (renewServerCert files draw reload).result.isOk) := by
  obtain ⟨_, hserverInfo, -⟩ := inspect_of_issueServerCertAt hserver
  rw [renewServerCert, hload]
  show (fromCa (inspect lib authority.certPem) >>= _).actions = _ ∧
    (_ → (fromCa (inspect lib authority.certPem) >>= _).result.isOk)
  rw [hinfo, fromCa_ok_bind, hserver, fromCa_ok_bind, hserverInfo]
  cases reload with
  | none => exact ⟨rfl, fun _ => rfl⟩
  | some answer =>
    cases answer with
    | ok => exact ⟨rfl, fun _ => rfl⟩
    | error message => exact ⟨rfl, fun h => absurd rfl (h message)⟩

theorem renews_of_complete (hcomplete : files.Complete Belongs .ca)
    (hmade : ∀ pem, files.cert .ca = some pem → Made pem) : Renews files := by
  intro now draw reload caPem hkey hchance hca
  cases hdue : renewalDue files now with
  | none =>
    obtain ⟨info, hcurrent, -⟩ := current_of_renewalDue hca hdue
    obtain ⟨serverPem, hserver, -⟩ := Option.bind_eq_some_iff.1 hcurrent.server
    have hnone : renewIfDue files now draw reload = ⟨[], .ok none⟩ := by
      rw [renewIfDue, hdue]
      rfl
    rw [hnone]
    exact ⟨serverPem, hserver, hcurrent.issued caPem serverPem hca hserver, fun _ => rfl⟩
  | some =>
    obtain ⟨_, server, hload, rfl, ⟨_, hinfo, hserver⟩, hverifies⟩ :=
      exists_issuesFrom hca hcomplete (hmade caPem hca) hkey hchance
    obtain ⟨hactions, hisOk⟩ := renewIfDue_of_some hdue draw reload
    obtain ⟨hstore, hok⟩ := renewServerCert_of_ok hload hinfo hserver reload
    rw [hisOk, hactions, hstore]
    exact ⟨server.certPem, rfl, hverifies, hok⟩

/-! ### Operations that store pairs -/

/-- What an operation does: it may put a certificate aside, stores whole pairs, and may remove
the pending one. -/
structure Plan (lib : Library) where
  aside : List (CertAction lib)
  pairs : List (Pair Slot lib.KeyPem (Pem lib))
  tail : List (CertAction lib)
  aside_eq : aside = [] ∨ ∃ name old, aside = [.putAside name old]
  tail_eq : tail = [] ∨ tail = dropPending
  nodup : (pairs.map Pair.slot).Nodup
  belongs : ∀ p ∈ pairs, Belongs p.key p.cert
  made : ∀ p ∈ pairs, p.slot = .ca → Made p.cert

namespace Plan

variable (plan : Plan lib)

def actions : List (CertAction lib) :=
  plan.aside ++ (storeAll plan.pairs ++ plan.tail)

/-- It stops right after the key of a pair that clashes. -/
def Parts (files : CertFiles lib) (k : ℕ) : Prop :=
  plan.aside.length ≤ k ∧ Parted Belongs files plan.pairs (k - plan.aside.length)

def nothing : Plan lib where
  aside := []
  pairs := []
  tail := []
  aside_eq := .inl rfl
  tail_eq := .inl rfl
  nodup := nodup_nil
  belongs := forall_mem_nil _
  made := forall_mem_nil _

theorem removals_tail_ca :
    ∀ a ∈ plan.tail, ∃ other, other ≠ Slot.ca ∧ (a = .removeCert other ∨ a = .removeKey other) := by
  intro a ha
  rcases plan.tail_eq with htail | htail
  · rw [htail] at ha
    cases ha
  · rw [htail] at ha
    exact ⟨.pending, nofun, by simpa [dropPending] using ha⟩

theorem removals_tail : Removals plan.tail := fun a ha =>
  (plan.removals_tail_ca a ha).imp fun _ hother => hother.2

theorem exists_after (files : CertFiles lib) (fates : List Bool) :
    files.after plan.actions fates = files ∧ ¬plan.Parts files (finished plan.actions fates) ∨
      ∃ (t : CertFiles lib) (fates' : List Bool), t.cert = files.cert ∧ t.key = files.key ∧
        files.after plan.actions fates = t.after (storeAll plan.pairs ++ plan.tail) fates' ∧
        (plan.Parts files (finished plan.actions fates) ↔
          Parted Belongs t plan.pairs (finished (storeAll plan.pairs ++ plan.tail) fates')) := by
  rw [actions, Parts]
  rcases plan.aside_eq with haside | ⟨name, old, haside⟩
  · rw [haside, length_nil]
    exact .inr ⟨files, fates, rfl, rfl, rfl, and_iff_right (Nat.zero_le _)⟩
  · rw [haside, singleton_append, length_singleton]
    rcases after_putAside_cons name old (storeAll plan.pairs ++ plan.tail) fates files with
      ⟨hafter, hdone⟩ | ⟨t, fates', hcert, hkey, hafter, hdone⟩
    · rw [hdone]
      exact .inl ⟨hafter, fun hparts => absurd hparts.1 (by decide)⟩
    · refine .inr ⟨t, fates', hcert, hkey, hafter, ?_⟩
      rw [hdone, parted_congr fun p _ => congrFun hcert p.slot]
      exact and_iff_right (Nat.le_add_left 1 _)

variable {files : CertFiles lib}

theorem agrees_iff (h : ∀ slot, files.Agrees Belongs slot) (fates : List Bool) :
    (∀ slot, (files.after plan.actions fates).Agrees Belongs slot) ↔
      ¬plan.Parts files (finished plan.actions fates) := by
  rcases plan.exists_after files fates with
    ⟨hafter, hparts⟩ | ⟨t, fates', hcert, hkey, hafter, hiff⟩
  · rw [hafter]
    exact iff_of_true h hparts
  · have ht : ∀ slot, t.Agrees Belongs slot := by
      intro slot
      rw [Store.Agrees, hcert, hkey]
      exact h slot
    rw [hafter, hiff]
    exact agrees_after_iff plan.nodup plan.belongs plan.removals_tail ht fates'

theorem complete_ca (h : files.Complete Belongs .ca)
    {fates : List Bool} (hparts : ¬plan.Parts files (finished plan.actions fates)) :
    (files.after plan.actions fates).Complete Belongs .ca := by
  rcases plan.exists_after files fates with ⟨hafter, -⟩ | ⟨t, fates', hcert, hkey, hafter, hiff⟩
  · rwa [hafter]
  · have ht : t.Complete Belongs .ca := by
      rwa [Store.Complete, hcert, hkey]
    rw [hafter]
    exact complete_after plan.nodup plan.belongs plan.removals_tail_ca ht fun hparted =>
      hparts (hiff.2 hparted)

theorem made_after {slot : Slot} (h : ∀ pem, files.cert slot = some pem → Made pem)
    (hpairs : ∀ p ∈ plan.pairs, p.slot = slot → Made p.cert) (fates : List Bool) :
    ∀ pem, (files.after plan.actions fates).cert slot = some pem → Made pem := by
  intro pem hpem
  rcases plan.exists_after files fates with ⟨hafter, -⟩ | ⟨t, fates', hcert, -, hafter, -⟩
  · rw [hafter] at hpem
    exact h pem hpem
  · rw [hafter] at hpem
    rcases cert_after plan.removals_tail hpem with hold | ⟨p, hp, hslot, rfl⟩
    · rw [hcert] at hold
      exact h pem hold
    · exact hpairs p hp hslot

theorem consistent_iff (h : Sound files) (fates : List Bool) :
    Consistent (files.after plan.actions fates) ↔
      ¬plan.Parts files (finished plan.actions fates) := by
  have hagrees := plan.agrees_iff h.agrees fates
  refine ⟨fun hconsistent => hagrees.1 hconsistent.1, fun hparts => ⟨hagrees.2 hparts, ?_⟩⟩
  exact renews_of_complete (plan.complete_ca h.complete hparts)
    (plan.made_after h.ca plan.made fates)

theorem sound_after (h : Sound files)
    (hpending : ∀ p ∈ plan.pairs, p.slot = .pending → Made p.cert) {fates : List Bool}
    (hparts : ¬plan.Parts files (finished plan.actions fates)) :
    Sound (files.after plan.actions fates) where
  agrees := (plan.agrees_iff h.agrees fates).2 hparts
  complete := plan.complete_ca h.complete hparts
  ca := plan.made_after h.ca plan.made fates
  pending := plan.made_after h.pending hpending fates

end Plan

/-! ### The operations -/

/-- There is a certificate in a slot that a key does not belong to. -/
def ClashesWith (files : CertFiles lib) (slot : Slot) (keyPem : Option lib.KeyPem) : Prop :=
  ∃ key pem, keyPem = some key ∧ files.cert slot = some pem ∧ ¬Belongs key pem

def Draw.keyPem (draw : Draw lib) : Option lib.KeyPem := draw.key.map lib.serializePem

/-- The operation stops right after it has written a key into a slot with a certificate of another
key: the server certificate's, the pending authority's or the active one's. The retired certificate
is written before them, if there is an active authority. -/
def Operation.Exposed (files : CertFiles lib) (k : ℕ) : Operation lib → Prop
  | ensureAtStartup _ _ _ serverDraw =>
    k = (if files.cert .ca = none then 3 else 1) ∧ ClashesWith files .server serverDraw.keyPem
  | renewServerCert draw _ => k = 1 ∧ ClashesWith files .server draw.keyPem
  | beginRotation _ draw => k = 1 ∧ ClashesWith files .pending draw.keyPem
  | activateRotation draw _ =>
    let aside := if files.cert .ca = none then 0 else 1
    k = aside + 1 ∧ ClashesWith files .ca (files.key .pending) ∨
      k = aside + 3 ∧ ClashesWith files .server draw.keyPem

theorem clashes_iff {material : Material lib}
    {keyPem : Option lib.KeyPem} (h : keyPem = some material.keyPem) :
    (pairOf slot material).Clashes Belongs files ↔ ClashesWith files slot keyPem := by
  constructor
  · rintro ⟨pem, hpem, hbelongs⟩
    exact ⟨material.keyPem, pem, h, hpem, hbelongs⟩
  · rintro ⟨_, pem, hkey, hpem, hbelongs⟩
    cases h.symm.trans hkey
    exact ⟨pem, hpem, hbelongs⟩

theorem keyPem_of_createCaAt
    (h : createCaAt addresses draw = .ok ca) : draw.keyPem = some ca.keyPem := by
  rw [createCaAt] at h
  obtain ⟨-, h⟩ := ensure_bind_eq_ok.1 h
  obtain ⟨key, hkey, h⟩ := bind_eq_ok.1 h
  obtain ⟨_, -, h⟩ := bind_eq_ok.1 h
  cases h
  rw [Draw.keyPem, orFail_eq_ok.1 hkey]
  rfl

theorem keyPem_of_issueServerCertAt {server : Material lib}
    (h : issueServerCertAt ca addresses draw = .ok server) : draw.keyPem = some server.keyPem := by
  obtain ⟨_, _, _, _, _, -, -, hkey, rfl⟩ := of_issueServerCertAt h
  rw [Draw.keyPem, hkey]
  rfl

def Operation.Accepted : Operation lib → Prop
  | beginRotation addresses _ => ∃ input, parseAddresses input = .ok addresses
  | ensureAtStartup _ _ _ _ | renewServerCert _ _ | activateRotation _ _ => True

/-- An operation follows a plan, and is exposed where the plan parts a pair. -/
def Follows (files : CertFiles lib) (actions : List (CertAction lib)) (exposed : ℕ → Prop)
    (accepted : Prop) : Prop :=
  ∃ plan : Plan lib, actions = plan.actions ∧
    (∀ k ≤ actions.length, exposed k ↔ plan.Parts files k) ∧
    (accepted → ∀ p ∈ plan.pairs, p.slot = .pending → Made p.cert)

theorem Follows.congr {actions : List (CertAction lib)}
    {exposed exposed' : ℕ → Prop} {accepted : Prop} (h : Follows files actions exposed accepted)
    (hiff : ∀ k ≤ actions.length, exposed' k ↔ exposed k) :
    Follows files actions exposed' accepted := by
  obtain ⟨plan, hactions, hexposed, hpending⟩ := h
  exact ⟨plan, hactions, fun k hk => (hiff k hk).trans (hexposed k hk), hpending⟩

theorem follows_nothing {exposed : ℕ → Prop} {accepted : Prop}
    (h : ¬exposed 0) : Follows files [] exposed accepted := by
  refine ⟨.nothing, rfl, fun k hk => ?_, fun _ => forall_mem_nil _⟩
  rw [Nat.le_zero.1 hk]
  exact iff_of_false h fun hparts => hparts.2

theorem follows_pair {material : Material lib} (hbelongs : Belongs material.keyPem material.certPem)
    (hmade : slot = .ca → Made material.certPem) {accepted : Prop}
    (hpending : accepted → slot = .pending → Made material.certPem)
    {keyPem : Option lib.KeyPem} (hkey : keyPem = some material.keyPem) :
    Follows files (storeAll [pairOf slot material])
      (fun k => k = 1 ∧ ClashesWith files slot keyPem) accepted := by
  refine ⟨⟨[], [pairOf slot material], [], .inl rfl, .inl rfl, pairwise_singleton _ _,
    forall_mem_singleton.2 hbelongs, forall_mem_singleton.2 hmade⟩, rfl,
    fun k hk => ?_, fun h => forall_mem_singleton.2 (hpending h)⟩
  rw [Plan.Parts, ← clashes_iff hkey]
  simp [Parted]

theorem follows_renewServerCert (files : CertFiles lib) (draw : Draw lib)
    (reload : Option ReloadAnswer) :
    Follows files (renewServerCert files draw reload).actions
      (fun k => k = 1 ∧ ClashesWith files .server draw.keyPem) True := by
  rcases actions_renewServerCert files draw reload with
    ⟨e, herror⟩ | ⟨authority, server, hissues, hactions⟩
  · rw [herror]
    exact follows_nothing fun h => absurd h.1 (by decide)
  · obtain ⟨_, -, hserver⟩ := hissues.issued
    have hca : Slot.server = .ca → Made server.certPem := nofun
    have hpending : True → Slot.server = .pending → Made server.certPem := nofun
    rw [hactions]
    exact follows_pair (belongs_of_issueServerCertAt hserver) hca hpending
      (keyPem_of_issueServerCertAt hserver)

theorem follows_beginRotation (files : CertFiles lib) (addresses : List Address) (draw : Draw lib) :
    Follows files (beginRotation files addresses draw).actions
      (fun k => k = 1 ∧ ClashesWith files .pending draw.keyPem)
      (∃ input, parseAddresses input = .ok addresses) := by
  rcases actions_beginRotation files addresses draw with hnil | ⟨pending, hcreate, hactions⟩
  · rw [hnil]
    exact follows_nothing fun h => absurd h.1 (by decide)
  · have hca : Slot.pending = .ca → Made pending.certPem := nofun
    rw [hactions]
    refine follows_pair (belongs_of_createCaAt hcreate) hca ?_ (keyPem_of_createCaAt hcreate)
    rintro ⟨input, hparse⟩ -
    exact ⟨input, addresses, draw, pending, hparse, hcreate, rfl⟩

theorem follows_two_pairs {aside tail : List (CertAction lib)}
    (haside : aside = [] ∨ ∃ name old, aside = [.putAside name old])
    (htail : tail = [] ∨ tail = dropPending) {server : Material lib}
    (hca : Belongs ca.keyPem ca.certPem) (hmade : Made ca.certPem)
    (hserver : Belongs server.keyPem server.certPem) {caKey serverKey : Option lib.KeyPem}
    (hcaKey : caKey = some ca.keyPem) (hserverKey : serverKey = some server.keyPem) :
    Follows files (aside ++ (storeAll [pairOf .ca ca, pairOf .server server] ++ tail))
      (fun k => k = aside.length + 1 ∧ ClashesWith files .ca caKey ∨
        k = aside.length + 3 ∧ ClashesWith files .server serverKey) True := by
  have hnodup : [Slot.ca, Slot.server].Nodup := by decide
  refine ⟨⟨aside, [pairOf .ca ca, pairOf .server server], tail, haside, htail, hnodup,
    forall_mem_cons.2 ⟨hca, forall_mem_singleton.2 hserver⟩,
    forall_mem_cons.2 ⟨fun _ => hmade, forall_mem_singleton.2 (fun h => nomatch h)⟩⟩,
    rfl, fun k hk => ?_, fun _ => ?_⟩
  swap
  · exact forall_mem_cons.2
      ⟨nofun, forall_mem_singleton.2 nofun⟩
  rw [Plan.Parts, ← clashes_iff hcaKey, ← clashes_iff hserverKey]
  simp only [Parted, and_false, or_false]
  constructor
  · rintro (⟨rfl, hclash⟩ | ⟨rfl, hclash⟩)
    · exact ⟨by omega, .inl ⟨by omega, hclash⟩⟩
    · exact ⟨by omega, .inr ⟨by omega, by omega, hclash⟩⟩
  · rintro ⟨hle, ⟨hone, hclash⟩ | ⟨htwo, hone, hclash⟩⟩
    · exact .inl ⟨by omega, hclash⟩
    · exact .inr ⟨by omega, hclash⟩

theorem follows_activateRotation (h : Sound files) (draw : Draw lib) (reload : ReloadAnswer) :
    Follows files (activateRotation files draw reload).actions
      (fun k => Operation.Exposed files k (.activateRotation draw reload)) True := by
  rcases actions_activateRotation files draw reload with
    ⟨e, herror⟩ | ⟨pending, server, hissues, hactions⟩
  · rw [herror]
    refine follows_nothing ?_
    rintro (⟨hzero, -⟩ | ⟨hzero, -⟩)
    · exact absurd hzero (Nat.succ_ne_zero _).symm
    · exact absurd hzero (Nat.succ_ne_zero _).symm
  obtain ⟨info, -, hserver⟩ := hissues.issued
  have hbelongs : Belongs pending.keyPem pending.certPem :=
    h.agrees .pending _ _ hissues.cert hissues.key
  -- an active authority can be read, so it is put aside if there is one
  have haside : (retire files).actions.length = (if files.cert .ca = none then 0 else 1) := by
    cases hca : files.cert .ca with
    | none =>
      rw [retire, hca]
      rfl
    | some pem =>
      obtain ⟨_, _, _, ca, -, hcreate, rfl⟩ := h.ca pem hca
      obtain ⟨info, hinfo, -⟩ := inspect_of_createCaAt hcreate
      rw [retire, hca]
      dsimp only
      rw [hinfo]
      rfl
  have hretire : (retire files).actions = [] ∨
      ∃ name old, (retire files).actions = [.putAside name old] := by
    rcases actions_retire files with ⟨hnil, -⟩ | ⟨name, old, hold, -⟩
    · exact .inl hnil
    · exact .inr ⟨name, old, hold⟩
  rw [hactions]
  refine (follows_two_pairs hretire (.inr rfl) hbelongs (h.pending _ hissues.cert)
    (belongs_of_issueServerCertAt hserver) hissues.key
    (keyPem_of_issueServerCertAt hserver)).congr fun k _ => ?_
  rw [haside]
  exact Iff.rfl

private theorem follows_ensureAtStartup (files : CertFiles lib)
    (seed : Option Text) (now : ℤ) (caDraw serverDraw : Draw lib) :
    Follows files (ensureAtStartup files seed now caDraw serverDraw).actions
      (fun k => Operation.Exposed files k (.ensureAtStartup seed now caDraw serverDraw)) True := by
  cases hca : files.cert .ca with
  | some =>
    rw [(ensureAtStartup_of_some hca seed now caDraw serverDraw).1]
    simp only [Operation.Exposed, hca, reduceCtorEq, if_false]
    cases hdue : renewalDue files now with
    | none =>
      rw [renewIfDue, hdue]
      exact follows_nothing fun h => absurd h.1 (by decide)
    | some =>
      rw [(renewIfDue_of_some hdue serverDraw none).1]
      exact follows_renewServerCert files serverDraw none
  | none =>
    simp only [Operation.Exposed, hca, if_true]
    by_cases hmanaged : isManaged files seed
    swap
    · rw [ensureAtStartup, if_neg hmanaged]
      exact follows_nothing fun h => absurd h.1 (by decide)
    have hclash : ∀ key, ¬ClashesWith files .ca key := by
      rintro key ⟨_, _, -, hpem, -⟩
      rw [hca] at hpem
      cases hpem
    rcases actions_ensureAtStartup_of_none hca hmanaged now caDraw serverDraw with
      ⟨e, herror⟩ | ⟨addresses, authority, hparse, hcreate, hstored⟩
    · rw [herror]
      exact follows_nothing fun h => absurd h.1 (by decide)
    have hbelongs := belongs_of_createCaAt hcreate
    have hmade : Made authority.certPem := ⟨_, addresses, caDraw, authority, hparse, hcreate, rfl⟩
    rcases hstored with ⟨e, herror⟩ | ⟨server, hserver, hactions⟩
    · rw [herror]
      refine (follows_pair hbelongs (fun _ => hmade) (fun _ _ => hmade)
        (keyPem_of_createCaAt hcreate)).congr fun k hk => ?_
      -- only the two files of the authority are written
      have hlt : k < 3 := Nat.lt_succ_of_le hk
      exact iff_of_false (fun h => hlt.ne h.1) fun h => hclash _ h.2
    · rw [hactions]
      refine (follows_two_pairs (.inl rfl) (.inl rfl) hbelongs hmade
        (belongs_of_issueServerCertAt hserver) (keyPem_of_createCaAt hcreate)
        (keyPem_of_issueServerCertAt hserver)).congr fun k _ => ?_
      simp [hclash]

theorem follows (h : Sound files) (op : Operation lib) :
    Follows files (op.actions files) (fun k => op.Exposed files k) op.Accepted := by
  cases op with
  | ensureAtStartup seed now caDraw serverDraw =>
    exact follows_ensureAtStartup files seed now caDraw serverDraw
  | renewServerCert draw reload => exact follows_renewServerCert files draw reload
  | beginRotation addresses draw => exact follows_beginRotation files addresses draw
  | activateRotation draw reload => exact follows_activateRotation h draw reload

/-- An operation that stops leaves pairs that match and that a renewal can start from, unless it
stops right after a key that the certificate beside it does not belong to. -/
theorem consistent_iff_not_exposed {files : CertFiles lib} (h : Sound files) (op : Operation lib)
    (fates : List Bool) :
    Consistent (files.after (op.actions files) fates) ↔
      ¬op.Exposed files (finished (op.actions files) fates) := by
  obtain ⟨plan, hactions, hexposed, -⟩ := follows h op
  have hparts := hexposed (finished (op.actions files) fates) (progress_le _ _)
  rw [not_congr hparts, hactions]
  exact plan.consistent_iff h fates

theorem sound_after (h : Sound files) {op : Operation lib}
    (haccepted : op.Accepted) {fates : List Bool}
    (hexposed : ¬op.Exposed files (finished (op.actions files) fates)) :
    Sound (files.after (op.actions files) fates) := by
  obtain ⟨plan, hactions, hiff, hpending⟩ := follows h op
  have hparts := mt (hiff _ (progress_le _ _)).2 hexposed
  rw [hactions] at hparts ⊢
  exact plan.sound_after h (hpending haccepted) hparts

private theorem sound_after_cancelRotation (h : Sound files) (fates : List Bool) :
    Sound (files.after (cancelRotation : TlsScript lib Unit).actions fates) := by
  let plan : Plan lib := { Plan.nothing with tail := dropPending, tail_eq := .inr rfl }
  exact plan.sound_after h (forall_mem_nil _) fun hparts => hparts.2

inductive Reached : CertFiles lib → Prop
  | empty : Reached ⟨fun _ => none, fun _ => none, []⟩
  | operation {files : CertFiles lib} (op : Operation lib) (fates : List Bool) :
    Reached files → op.Accepted → ¬op.Exposed files (finished (op.actions files) fates) →
      Reached (files.after (op.actions files) fates)
  | cancelRotation {files : CertFiles lib} (fates : List Bool) :
    Reached files → Reached (files.after InternalTls.cancelRotation.actions fates)

theorem sound_of_reached (h : Reached files) : Sound files := by
  induction h with
  | empty =>
    exact ⟨fun _ _ _ => nofun, fun _ => nofun, fun _ => nofun, fun _ => nofun⟩
  | operation _ _ _ haccepted hexposed ih => exact sound_after ih haccepted hexposed
  | cancelRotation fates _ ih => exact sound_after_cancelRotation ih fates

/-! ### A rotation that stops -/

def firstFiles : CertFiles Library.recording :=
  noFiles.after (firstStart.actions noFiles) [true, true, true, true]

def dayLater : Operation Library.recording := .renewServerCert (sampleDraw 86400 9) none

theorem reached_firstFiles : Reached firstFiles := by
  refine .operation firstStart _ .empty trivial ?_
  rintro ⟨-, _, _, -, hpem, -⟩
  cases hpem

def rotatingFiles : CertFiles Library.recording :=
  firstFiles.after (Operation.actions firstFiles (.beginRotation firstAddresses (sampleDraw 1 9)))
    [true, true]

theorem reached_rotatingFiles : Reached rotatingFiles := by
  refine .operation (.beginRotation firstAddresses _) _ reached_firstFiles
    ⟨_, parseAddresses_firstText⟩ ?_
  rintro ⟨-, _, _, -, hpem, -⟩
  cases hpem

def activation : Operation Library.recording := .activateRotation (sampleDraw 86400 10) (.ok ())

/-- It may stop with the authority replaced and the server certificate not. -/
theorem consistent_iff_not_exposed_activation :
    Consistent (rotatingFiles.after (activation.actions rotatingFiles) [true, true, true]) := by
  refine (consistent_iff_not_exposed (sound_of_reached reached_rotatingFiles) activation _).2 ?_
  rintro (⟨hdone, -⟩ | ⟨hdone, -⟩)
  · cases hdone
  · cases hdone

/-- A renewal that stops right after the key leaves the old certificate beside it. After an
activation that does, a renewal gives a certificate that does not verify. -/
theorem not_consistent_of_stopped :
    (Sound firstFiles ∧
      ¬∀ slot, (firstFiles.after (dayLater.actions firstFiles) [true]).Agrees Belongs slot) ∧
    Sound rotatingFiles ∧
      ¬Renews (rotatingFiles.after (activation.actions rotatingFiles) [true, true]) := by
  refine ⟨⟨sound_of_reached reached_firstFiles, fun hagrees => ?_⟩,
    sound_of_reached reached_rotatingFiles, fun hrenews => ?_⟩
  · obtain ⟨_, _, hkey, hcert, hbelongs⟩ := hagrees .server _ _ rfl rfl
    cases hkey
    cases hcert
    have hkeys : (9 : ℕ) = 8 := hbelongs
    cases hkeys
  · obtain ⟨_, hserver, hverifies, -⟩ :=
      hrenews 69120000 (sampleDraw 69120000 11) none _ nofun nofun rfl
    cases hserver
    cases hverifies

end Abyssal.InternalTls
