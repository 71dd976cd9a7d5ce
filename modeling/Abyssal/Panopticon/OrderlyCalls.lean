import Abyssal.Panopticon.CallRules

/-!
# The calls keep the rules

The programs of enforcement calls, releases and sweeps keep the rules of orderly runs. Programs
that access a switch are specified by triples: what they ask of the switch and what they
establish, in terms of objects that the call owns, so that no other call interferes.
-/

namespace Abyssal.Panopticon

open Resumption Option List

variable {lists : Bool} {i : ThreadId} {s s' : Net} {t : Target} {act : Option ActionId}
  {φ ψ : Device → Prop} {α β : Type}

/-! ### Single operations -/

variable {Q : α → Net → Prop}

open Panopticon.Net Rules

/-- The program keeps the rules, and where it ends `Q` holds. -/
abbrev Runs (lists : Bool) (i : ThreadId) (Q : α → Net → Prop) (x : Program α) (s : Net) : Prop :=
  (rules lists).wp Net.exec (Orderly lists) i Q x s

/-- The program keeps the rules, and where it ends the thread has no call in progress. -/
abbrev Ends (lists : Bool) (i : ThreadId) (x : Program α) (s : Net) : Prop :=
  Runs lists i (fun _ s' => s'.IsOut i) x s

theorem wp_op (op : Op) {k : Resp op → Program α}
    (A : Resp op → Net → Prop) (hs : Wf lists s.world s.calls) (hpre : pre lists i op s)
    (hstable : ∀ r s s', Rely lists i s s' → A r s → A r s')
    (hA : ∀ c s' r, Net.exec i op c s = some (s', r) → A r s')
    (hk : ∀ r s', Wf lists s'.world s'.calls → A r s' → Runs lists i Q (k r) s') :
    Runs lists i Q (.call op k) s := by
  refine wp_call_of A (fun r s s' _ => hstable r s s') hpre (fun c s' r hok h => ?_) hk
  have hstep := stepped_of_exec hs hpre hok h
  exact ⟨hstep.wf hs, fun _ => hstep.rely hs, hA c s' r h⟩

/-- The call of thread `i` is in progress and, with `lists`, its switch satisfies `φ`. -/
structure At (lists : Bool) (i : ThreadId) (t : Target) (act : Option ActionId)
    (φ : Device → Prop) (s : Net) : Prop where
  mem : (i, ⟨t, act⟩) ∈ s.calls
  device : lists = true → φ (s.world.devices t.switch)

def Local (t : Target) (φ : Device → Prop) : Prop := ∀ d d', OwnKept t d d' → φ d → φ d'

theorem At.rely (hφ : Local t φ) (hr : Rely lists i s s') (h : At lists i t act φ s) :
    At lists i t act φ s' :=
  ⟨(hr.calls _).mpr h.mem, fun hl => hφ _ _ (hr.device hl _ h.mem) (h.device hl)⟩

theorem At.of_eq (h : At lists i t act φ s) (hworld : s'.world = s.world)
    (hcalls : s'.calls = s.calls) : At lists i t act φ s' :=
  ⟨hcalls ▸ h.mem, hworld ▸ h.device⟩

theorem local_true : Local t fun _ => True := fun _ _ _ _ => trivial

theorem local_and (hφ : Local t φ) (hψ : Local t ψ) : Local t fun d => φ d ∧ ψ d :=
  fun _ _ hk h => ⟨hφ _ _ hk h.1, hψ _ _ hk h.2⟩

variable {p : ℕ}

theorem local_bridgePort {f : ℕ} : Local t fun d => d.bridgePort f = some p :=
  fun _ _ hk h => (hk.bridgePort f).trans h

variable {value : OwnedValue}

theorem local_adminStatus : Local t fun d => d.objects (.adminStatus t.ifIndex) = some value :=
  fun _ _ hk h => hk.adminStatus.trans h

variable {column : ℕ → Oid} {vlan : ℕ}

theorem local_objects (hcolumn : column = .egressPorts ∨ column = .untaggedPorts)
    (hkind : t.kind = .quarantine) {value : Option OwnedValue} :
    Local t fun d => d.objects (column vlan) = value := by
  rcases hcolumn with rfl | rfl
  · exact fun _ _ hk h => (hk.egress hkind vlan).trans h
  · exact fun _ _ hk h => (hk.untagged hkind vlan).trans h

open Device

theorem local_member (hcolumn : column = .egressPorts ∨ column = .untaggedPorts)
    (hkind : t.kind = .quarantine) {on : Bool} :
    Local t fun d => d.member (column vlan) p = on := by
  intro d d' hk h
  rwa [member_congr (local_objects hcolumn hkind d d' hk rfl)]

/-! ### Programs that access the switch -/

variable {c : Choice}

theorem objects_of_answer {d : Device} {oid : Oid}
    (h : (c.report () >>= fun _ => d.get oid) = .ok value) : d.objects oid = some value := by
  cases hr : c.report () with
  | error =>
    rw [hr] at h
    cases h
  | ok =>
    rw [hr] at h
    have hget : d.get oid = .ok value := h
    unfold Device.get at hget
    split at hget
    · rename_i hobj
      rw [hobj, Except.ok.inj hget]
    · cases hget

/-- Where the switch satisfies `φ`, the program keeps the rules, and if it succeeds with `a`, `ψ a`
holds. -/
def Triple (lists : Bool) (i : ThreadId) (t : Target) (act : Option ActionId) (φ : Device → Prop)
    (x : SnmpM α) (ψ : α → Device → Prop) : Prop :=
  ∀ s, Wf lists s.world s.calls → At lists i t act φ s →
    (rules lists).wp Net.exec (Orderly lists) i
      (fun r s' => At lists i t act (fun d => ∀ a, r = .ok a → ψ a d) s') x.run s

namespace Triple

variable {x : SnmpM α} {χ : α → Device → Prop}

theorem mono {ρ : Device → Prop} {ζ : α → Device → Prop} (h : Triple lists i t act ρ x ζ)
    (hpre : ∀ d, φ d → ρ d) (hpost : ∀ a d, ζ a d → χ a d) : Triple lists i t act φ x χ :=
  fun s hs hat => wp_mono hs (h s hs ⟨hat.mem, fun hl => hpre _ (hat.device hl)⟩)
    fun _ _ _ hpost' => ⟨hpost'.mem, fun hl a ha => hpost a _ (hpost'.device hl a ha)⟩

theorem ret {a : α} (h : ∀ d, φ d → χ a d) : Triple lists i t act φ (pure a) χ :=
  fun _ _ hat => ⟨hat.mem, fun hl _ ha => Except.ok.inj ha ▸ h _ (hat.device hl)⟩

theorem fail {e : String} : Triple lists i t act φ (throw e : SnmpM α) χ :=
  fun _ _ hat => ⟨hat.mem, fun _ _ ha => by cases ha⟩

theorem bind {f : α → SnmpM β} {ζ : β → Device → Prop} (hx : Triple lists i t act φ x χ)
    (hf : ∀ a, Triple lists i t act (χ a) (f a) ζ) : Triple lists i t act φ (x >>= f) ζ := by
  intro s hs hat
  rw [ExceptT.run_bind]
  refine wp_bind.mpr (wp_mono hs (hx s hs hat) fun r s' hs' hat' => ?_)
  cases r with
  | ok a => exact hf a s' hs' ⟨hat'.mem, fun hl => hat'.device hl a rfl⟩
  | error => exact ⟨hat'.mem, fun _ _ ha => by cases ha⟩

theorem connectFor (hφ : Local t φ) : Triple lists i t act φ (connectFor t.switch) fun _ => φ := by
  intro s hs hat
  refine wp_op (.connect t.switch) (fun _ => At lists i t act φ) hs trivial
    (fun _ _ _ => At.rely hφ) (fun c s' r h => ?_) fun r s' _ hat' =>
    ⟨hat'.mem, fun hl _ _ => hat'.device hl⟩
  exact hat.of_eq (world_of_exec h) (calls_of_exec h)

theorem bridgePortForIfIndex {f : ℕ} (hφ : Local t φ) :
    Triple lists i t act φ (bridgePortForIfIndex t.switch f)
      fun p d => φ d ∧ d.bridgePort f = some p := by
  refine bind (χ := fun rows d => φ d ∧ d.bridgePort f = bridgePortIn rows f) ?_ fun rows => ?_
  · intro s hs hat
    refine wp_op (.walkBasePorts t.switch) (fun r => At lists i t act fun d => ∀ rows,
      r = .ok rows → φ d ∧ d.bridgePort f = bridgePortIn rows f) hs trivial
      (fun r _ _ => At.rely fun d d' hk h rows hr => ?_) (fun c s' r h => ?_)
      fun r s' _ hat' => hat'
    · exact ⟨hφ _ _ hk (h rows hr).1, (hk.bridgePort f).trans (h rows hr).2⟩
    · refine .of_eq ⟨hat.mem, fun hl rows hrows => ⟨hat.device hl, ?_⟩⟩ (world_of_exec h)
        (calls_of_exec h)
      rw [(acks_of_report ((answer_of_exec h).symm.trans hrows)).2]
      rfl
  · split
    · exact ret fun d h => ⟨h.1, h.2.trans ‹_›⟩
    · exact fail

variable {oid : Oid}

theorem snmpGet {χ : OwnedValue → Device → Prop} (hχ : ∀ value, Local t (χ value))
    (hget : ∀ d value, φ d → d.objects oid = some value → χ value d) :
    Triple lists i t act φ (snmpGet t.switch oid) χ := by
  intro s hs hat
  refine wp_op (.get t.switch oid) (fun r => At lists i t act fun d => ∀ value, r = .ok value →
    χ value d) hs trivial (fun r _ _ => At.rely fun d d' hk h value hr => ?_)
    (fun c s' r h => ?_) fun r s' _ hat' => hat'
  · exact hχ value _ _ hk (h value hr)
  · refine .of_eq ⟨hat.mem, fun hl value hvalue => hget _ _ (hat.device hl) ?_⟩ (world_of_exec h)
      ((calls_of_exec h).trans ?_)
    · exact objects_of_answer ((answer_of_exec h).symm.trans hvalue)
    · simp only [track]
      split_ifs <;> rfl

theorem snmpGetInt (hφ : Local t φ) :
    Triple lists i t act φ (snmpGetInt t.switch oid) fun _ => φ := by
  refine bind (snmpGet (fun _ => hφ) fun _ _ h _ => h) fun value => ?_
  cases value with
  | integer => exact ret fun _ h => h
  | octetString | counter => exact fail

theorem snmpSet {value : OwnedValue} (hedit : ∀ d, φ d → Edits t d oid value)
    (hset : ∀ d, φ d → ψ (d.write oid value)) (hψ : Local t ψ) :
    Triple lists i t act φ (snmpSet t.switch oid value) fun _ => ψ := by
  intro s hs hat
  refine wp_op (.set t.switch oid value) (fun r => At lists i t act fun d => ∀ u, r = .ok u → ψ d)
    hs ⟨_, hat.mem, rfl, fun hl => hedit _ (hat.device hl)⟩
    (fun r _ _ => At.rely fun d d' hk h u hr => hψ _ _ hk (h u hr)) (fun c s' r h => ?_)
    fun r s' _ hat' => hat'
  have hcalls : s'.calls = s.calls := by
    refine (calls_of_exec h).trans ?_
    simp only [track]
    split_ifs <;> rfl
  refine ⟨hcalls ▸ hat.mem, fun hl u hu => ?_⟩
  have hacks := (acks_of_report ((answer_of_exec h).symm.trans hu)).1
  have hworld := world_of_exec h
  rw [exec, if_pos (Choice.takes_of_acks hacks)] at hworld
  rw [hworld, World.write_devices_self]
  exact hset _ (hat.device hl)

variable {vlan : ℕ}

theorem editVlanPortlist {column : ℕ → Oid}
    (hcolumn : column = .egressPorts ∨ column = .untaggedPorts) (hkind : t.kind = .quarantine)
    {p : ℕ} {on : Bool} {what : String} (hφ : Local t φ)
    (hport : ∀ d, φ d → d.bridgePort t.ifIndex = some p)
    (hwrite : ∀ d value, φ d → φ (d.write (column vlan) value)) :
    Triple lists i t act φ (editVlanPortlist t.switch column vlan p on what)
      fun _ d => φ d ∧ d.member (column vlan) p = on := by
  have hpost : Local t fun d => φ d ∧ d.member (column vlan) p = on :=
    local_and hφ (local_member hcolumn hkind)
  refine bind (snmpGet (χ := fun value d => φ d ∧ d.objects (column vlan) = some value)
    (fun _ => local_and hφ (local_objects hcolumn hkind)) fun d value h hobj => ⟨h, hobj⟩)
    fun value => ?_
  cases value with
  | integer | counter => exact fail
  | octetString bytes =>
    cases hchanged : (portlistSet bytes p on).2 with
    | false =>
      simp only [hchanged, Bool.false_eq_true, ↓reduceIte]
      refine ret fun d ⟨h, hobj⟩ => ⟨h, ?_⟩
      have hsame := portlistSet_changed bytes (bridgePort_ne_zero (hport d h)) on
      rw [hchanged] at hsame
      rw [member_of_objects _ hobj]
      simpa using hsame
    | true =>
      simp only [hchanged, ↓reduceIte]
      refine snmpSet (fun d ⟨h, hobj⟩ => ?_) (fun d ⟨h, hobj⟩ => ⟨hwrite _ _ h, ?_⟩) hpost
      · rcases hcolumn with rfl | rfl
        · exact ⟨hkind, p, bytes, on, hport d h, hobj, rfl⟩
        · exact ⟨hkind, p, bytes, on, hport d h, hobj, rfl⟩
      · rw [member_of_objects _ (write_objects_self ..),
          contains_portlistSet bytes (bridgePort_ne_zero (hport d h)), if_pos rfl]

theorem enforceDisablePort :
    Triple lists i t act (fun _ => True) (enforceDisablePort t.switch t.ifIndex)
      fun _ d => d.objects (.adminStatus t.ifIndex) = some (.integer ifAdminDown) :=
  bind (connectFor local_true) fun _ => bind (snmpGetInt local_true) fun _ =>
    bind (snmpSet (fun _ _ => rfl) (fun _ _ => write_objects_self ..) local_adminStatus)
      fun _ => ret fun _ h => h

theorem revertDisablePort {restoreTo : Option ℤ} :
    Triple lists i t act (fun _ => True) (revertDisablePort t.switch t.ifIndex restoreTo)
      fun _ _ => True :=
  bind (connectFor local_true) fun _ =>
    snmpSet (fun _ _ => rfl) (fun _ _ => trivial) local_true

theorem enforceQuarantinePort (hkind : t.kind = .quarantine) :
    Triple lists i t act (fun _ => True) (enforceQuarantinePort t.switch t.ifIndex vlan)
      fun _ d => ∃ p, d.bridgePort t.ifIndex = some p ∧ d.objects (.pvid p) = some (.integer vlan) ∧
        d.member (.egressPorts vlan) p ∧ d.member (.untaggedPorts vlan) p := by
  refine bind (connectFor local_true) fun _ => bind (bridgePortForIfIndex local_true) fun p => ?_
  refine mono (ρ := fun d => d.bridgePort t.ifIndex = some p) ?_ (fun _ h => h.2)
    fun _ _ h => ⟨p, h⟩
  have hegress : Local t fun d => d.bridgePort t.ifIndex = some p ∧
      d.member (.egressPorts vlan) p :=
    local_and local_bridgePort (local_member (.inl rfl) hkind)
  have huntagged : Local t fun d => (d.bridgePort t.ifIndex = some p ∧
      d.member (.egressPorts vlan) p) ∧ d.member (.untaggedPorts vlan) p :=
    local_and hegress (local_member (.inr rfl) hkind)
  refine bind (snmpGetInt local_bridgePort) fun _ => ?_
  refine bind (editVlanPortlist (.inl rfl) hkind local_bridgePort (fun _ h => h)
    fun _ _ h => h) fun _ => ?_
  refine bind (editVlanPortlist (.inr rfl) hkind hegress (fun _ h => h.1) fun d value h => ?_)
    fun _ => ?_
  · exact ⟨h.1, (member_congr (write_objects_of_ne _ _ (by simp)) p).trans h.2⟩
  have hpost : Local t fun d => d.bridgePort t.ifIndex = some p ∧
      d.objects (.pvid p) = some (.integer vlan) ∧ d.member (.egressPorts vlan) p ∧
      d.member (.untaggedPorts vlan) p := fun d d' hk ⟨hp, hpvid, he, hu⟩ =>
    ⟨(hk.bridgePort _).trans hp, (hk.pvid p hp).trans hpvid,
      (huntagged d d' hk ⟨⟨hp, he⟩, hu⟩).1.2, (huntagged d d' hk ⟨⟨hp, he⟩, hu⟩).2⟩
  refine bind (snmpSet (fun _ h => h.1.1) (fun d ⟨⟨hp, he⟩, hu⟩ => ?_) hpost) fun _ =>
    ret fun _ h => h
  refine ⟨hp, write_objects_self .., ?_, ?_⟩
  · exact (member_congr (write_objects_of_ne _ _ (by simp)) p).trans he
  · exact (member_congr (write_objects_of_ne _ _ (by simp)) p).trans hu

theorem revertQuarantinePort {restorePvid : Option ℤ} (hkind : t.kind = .quarantine) :
    Triple lists i t act (fun _ => True)
      (revertQuarantinePort t.switch t.ifIndex restorePvid vlan) fun _ _ => True := by
  refine bind (connectFor local_true) fun _ => bind (bridgePortForIfIndex local_true) fun p => ?_
  refine mono (ρ := fun d => d.bridgePort t.ifIndex = some p) (ζ := fun _ _ => True) ?_
    (fun _ h => h.2) fun _ _ h => h
  have hedits : Triple lists i t act (fun d => d.bridgePort t.ifIndex = some p) (do
      Panopticon.editVlanPortlist t.switch .untaggedPorts vlan p false
        "quarantine VLAN untagged ports (revert)"
      Panopticon.editVlanPortlist t.switch .egressPorts vlan p false
        "quarantine VLAN egress ports (revert)") fun _ _ => True := by
    refine bind (editVlanPortlist (.inr rfl) hkind local_bridgePort (fun _ h => h)
      fun _ _ h => h) fun _ => ?_
    exact (editVlanPortlist (.inl rfl) hkind local_bridgePort (fun _ h => h)
      fun _ _ h => h).mono (fun _ h => h.1) fun _ _ _ => trivial
  cases restorePvid with
  | none => exact hedits
  | some n =>
    by_cases hn : 0 < n
    · simp only [hn, ↓reduceIte]
      exact bind (snmpSet (fun _ h => h) (fun _ h => h) local_bridgePort) fun _ => hedits
    · simp only [hn, ↓reduceIte]
      exact hedits

end Triple

variable {quarantineVlan : Option ℕ}

theorem triple_enforcePort (req : EnforceRequest)
    (hvlan : req.kind = .quarantine → quarantineVlan ≠ none) :
    Triple lists i req.target act (fun _ => True) (enforcePort req (quarantineVlan.getD 0))
      fun prior d => ∀ expiresAt error, (req.newAction .active prior.1 prior.2 quarantineVlan
        expiresAt error).Enforced (d.port req.ifIndex) := by
  unfold enforcePort
  cases hkind : req.kind with
  | disable =>
    refine Triple.bind Triple.enforceDisablePort fun n => Triple.ret fun d h _ _ => ?_
    unfold NewAction.Enforced EnforceRequest.newAction
    rwa [hkind]
  | quarantine =>
    obtain ⟨vlan, rfl⟩ := ne_none_iff_exists'.mp (hvlan hkind)
    refine Triple.bind (Triple.enforceQuarantinePort hkind) fun n =>
      Triple.ret fun d ⟨p, hp, hpvid, he, hu⟩ _ _ => ?_
    unfold NewAction.Enforced EnforceRequest.newAction
    rw [hkind]
    have hp : d.bridgePort req.ifIndex = some p := hp
    refine ⟨vlan, rfl, ?_, ?_, ?_⟩
    · simpa only [port, hp, bind_some, getD_some] using hpvid
    · simpa only [port, hp, any_some, getD_some] using he
    · simpa only [port, hp, any_some, getD_some] using hu

theorem triple_revertPort (action : Action) :
    Triple lists i action.target act (fun _ => True) (revertPort action) fun _ _ => True := by
  unfold revertPort
  cases hkind : action.kind with
  | disable => exact Triple.revertDisablePort
  | quarantine => exact Triple.revertQuarantinePort hkind

/-! ### Calls -/

theorem Rely.mem {c : Call} (hr : Rely lists i s s') (h : (i, c) ∈ s.calls) : (i, c) ∈ s'.calls :=
  (hr.calls c).mpr h

theorem Net.IsOut.rely (hr : Rely lists i s s') (h : s.IsOut i) : s'.IsOut i := by
  intro e he hei
  exact h (i, e.2) ((hr.calls e.2).mp (hei ▸ he)) rfl

theorem isOut_others {calls : List (ThreadId × Call)} (hcalls : s'.calls = others i calls) :
    s'.IsOut i := fun _ he => (mem_others.mp (hcalls ▸ he)).2

private theorem wp_create {new : NewAction} {k : Except String ActionId → Program α}
    (hs : Wf lists s.world s.calls) (hat : At lists i new.target none φ s)
    (henforced : lists → new.state = .active → φ (s.world.devices new.switchId) →
      new.Enforced ((s.world.devices new.switchId).port new.ifIndex))
    (hk : ∀ r s', Wf lists s'.world s'.calls → s'.IsOut i → Runs lists i Q (k r) s') :
    Runs lists i Q (.call (.create new) k) s := by
  refine wp_op (.create new) (fun _ s => s.IsOut i) hs
    ⟨_, hat.mem, rfl, rfl, fun hl hstate => henforced hl hstate (hat.device hl)⟩
    (fun _ _ _ => IsOut.rely) (fun c s' r h => isOut_others (calls_of_exec h)) hk

theorem wp_enforceAndRecord (req : EnforceRequest) {expiresAt : Option ℕ}
    (hvlan : req.kind = .quarantine → quarantineVlan ≠ none) (hs : Wf lists s.world s.calls)
    (hin : (i, ⟨req.target, none⟩) ∈ s.calls) :
    Ends lists i (enforceAndRecord req quarantineVlan expiresAt) s := by
  refine wp_bind.mpr (wp_mono hs
    (triple_enforcePort req hvlan s hs ⟨hin, fun _ => trivial⟩) fun r s' hs' hat => ?_)
  rcases r with message | prior
  · exact wp_create hs' hat (by simp [EnforceRequest.newAction]) fun _ _ _ hout => hout
  · refine wp_create hs' hat (fun _ _ h => h prior rfl expiresAt none) fun r _ _ hout => ?_
    cases r <;> exact hout

variable {req : EnforceRequest}

theorem wp_expiry {k : Option ℕ → Program α}
    (hs : Wf lists s.world s.calls) (hin : (i, ⟨t, act⟩) ∈ s.calls)
    (hk : ∀ r s', Wf lists s'.world s'.calls → (i, ⟨t, act⟩) ∈ s'.calls → Runs lists i Q (k r) s') :
    Runs lists i Q (expiry req >>= k) s := by
  unfold expiry
  split_ifs
  · exact wp_op .now (fun _ s => (i, ⟨t, act⟩) ∈ s.calls) hs trivial
      (fun _ _ _ => Rely.mem) (fun c s' r h => (calls_of_exec h) ▸ hin)
      fun r s' hs' hin' => hk _ s' hs' hin'
  · exact hk _ s hs hin

theorem wp_requestedVlan {k : Except EnforceError (Option ℕ) → Program α}
    (hs : Wf lists s.world s.calls) (hin : (i, ⟨t, none⟩) ∈ s.calls)
    (hok : ∀ vlan s', (req.kind = .quarantine → vlan ≠ none) → Wf lists s'.world s'.calls →
      (i, ⟨t, none⟩) ∈ s'.calls → Runs lists i Q (k (.ok vlan)) s')
    (herror : ∀ e s', s'.IsOut i → Runs lists i Q (k (.error e)) s') :
    Runs lists i Q (requestedVlan req >>= k) s := by
  unfold requestedVlan
  cases hkind : req.kind with
  | disable => exact hok _ s (by simp [hkind]) hs hin
  | quarantine =>
    refine wp_op .quarantineVlan
      (fun vlan s => if vlan = 0 then s.IsOut i else (i, ⟨t, none⟩) ∈ s.calls) hs
      ⟨_, hin, rfl⟩ (fun vlan _ _ hr h => ?_) (fun c s' vlan h => ?_) fun vlan s' hs' h => ?_
    · split_ifs at h ⊢
      · exact h.rely hr
      · exact hr.mem h
    · have hcalls := calls_of_exec h
      simp only [track] at hcalls
      split_ifs at hcalls ⊢
      · exact isOut_others hcalls
      · exact hcalls ▸ hin
    · change Runs lists i Q ((if vlan = 0 then _ else _) >>= k) s'
      split_ifs at h ⊢
      · exact herror _ s' h
      · exact hok (some vlan) s' (by simp) hs' h

/-- After the lookup of the action in effect, a call that found none is in progress. -/
def Entered (i : ThreadId) (t : Target) : Except String (Option Action) → Net → Prop
  | .ok none, s => (i, ⟨t, none⟩) ∈ s.calls
  | .ok (some _), s => s.IsOut i
  | .error _, s => s.IsOut i

variable (hasKey : Bool)

theorem wp_apply (req : EnforceRequest) (hs : Wf lists s.world s.calls) (hout : s.IsOut i) :
    Ends lists i (apply hasKey req) s := by
  refine wp_op .enforcementEnabled (fun _ s => s.IsOut i) hs trivial (fun _ _ _ => Net.IsOut.rely)
    (fun c s' r h e he => hout e (calls_of_exec h ▸ he)) fun enabled s hs hout => ?_
  change Runs lists i _ (if !enabled then _ else if !req.switch.enforcementEnabled then _
    else if !hasKey then _ else _) s
  split_ifs
  · exact hout
  · exact hout
  · exact hout
  refine wp_op (.findInEffect req.target) (Entered i req.target) hs hout
    (fun r _ _ hr h => ?_) (fun c s' r h => ?_) fun r s hs h => ?_
  · rcases r with e | _ | a
    · exact IsOut.rely hr h
    · exact hr.mem h
    · exact IsOut.rely hr h
  · have hcalls := calls_of_exec h
    rcases r with e | _ | a
    · exact fun e he => hout e (hcalls ▸ he)
    · rw [Entered, hcalls]
      exact mem_cons_self
    · exact fun e he => hout e (hcalls ▸ he)
  · rcases r with e | _ | a
    · exact h
    · refine wp_requestedVlan hs h (fun vlan s hvlan hs hin => ?_) fun e s' hout => hout
      exact wp_expiry hs hin fun expiresAt s hs hin => wp_enforceAndRecord req hvlan hs hin
    · exact h

theorem wp_markReverted {id : ActionId} {state : EnforcementState} {error : Option String}
    {k : Except String Unit → Program α} (hs : Wf lists s.world s.calls)
    (hpre : pre lists i (.markReverted id state error) s)
    (hk : ∀ r s', s'.IsOut i → Runs lists i Q (k r) s') :
    Runs lists i Q (.call (.markReverted id state error) k) s :=
  wp_op (.markReverted id state error) (fun _ s => s.IsOut i) hs hpre
    (fun _ _ _ => IsOut.rely) (fun _ _ _ h => isOut_others (calls_of_exec h))
    fun r s' _ hout => hk r s' hout

/-- After the lookup of its switch, a release that got an answer is in progress. -/
def Resumed (i : ThreadId) (action : Action) : Except String Bool → Net → Prop
  | .ok _, s => (i, ⟨action.target, some action.id⟩) ∈ s.calls
  | .error _, s => s.IsOut i

theorem wp_release (action : Action) (hs : Wf lists s.world s.calls)
    (hout : s.IsOut i) (hknows : s.world.Knows action) :
    Ends lists i (release hasKey action) s := by
  unfold release
  cases hasKey with
  | false =>
    exact wp_markReverted hs ⟨fun c hc => absurd rfl (hout (i, c) hc), .inl rfl⟩
      fun _ _ hout => hout
  | true =>
    refine wp_op (.findSwitch action) (Resumed i action) hs ⟨hout, hknows⟩
      (fun r _ _ hr h => ?_) (fun c s' r h => ?_) fun r s hs h => ?_
    · rcases r with e | found
      · exact IsOut.rely hr h
      · exact hr.mem h
    · have hcalls := calls_of_exec h
      rcases r with e | found
      · exact fun e he => hout e (hcalls ▸ he)
      · rw [Resumed, hcalls]
        exact mem_cons_self
    · rcases r with e | _ | _
      · exact h
      · refine wp_markReverted hs ⟨fun c hc => ?_, .inr ⟨rfl, _, h⟩⟩ fun _ _ hout => hout
        rw [hs.own hc h]
      · change Runs lists i _ ((revertPort action).run >>= _) s
        refine wp_bind.mpr (wp_mono hs
          (triple_revertPort action s hs ⟨h, fun _ => trivial⟩) fun r s' hs' hat => ?_)
        rcases r with message | u
        · refine wp_markReverted hs' ⟨fun c hc => ?_, .inl rfl⟩ fun _ _ hout => hout
          rw [hs'.own hc hat.mem]
        · refine wp_markReverted hs' ⟨fun c hc => ?_, .inr ⟨rfl, _, hat.mem⟩⟩ fun r _ hout => ?_
          · rw [hs'.own hc hat.mem]
          · cases r <;> exact hout

variable {a : Action}

theorem wp_releaseAll (actions : List Action) (hs : Wf lists s.world s.calls)
    (hout : s.IsOut i) (hknows : ∀ a ∈ actions, s.world.Knows a) :
    Ends lists i (releaseAll hasKey actions) s := by
  induction actions generalizing s with
  | nil => exact hout
  | cons action rest ih =>
    -- the later rows stay known while this one is released
    have hrest := wp_frame (F := fun s => ∀ a ∈ rest, s.world.Knows a)
      (fun op c s s' r hs hpre hok h hF a ha => (stepped_of_exec hs hpre hok h).knows (hF a ha))
      (fun s s' (hr : Rely lists i s s') hF a ha => hr.knows a (hF a ha)) hs
      (fun a ha => hknows a (mem_cons_of_mem _ ha))
      (wp_release hasKey action hs hout (hknows action mem_cons_self))
    refine wp_bind.mpr (wp_mono hs hrest fun _ s' hs' h => ?_)
    exact ih hs' h.1 h.2

variable {w : World}

theorem knows_of_mem (h : a ∈ w.actions) : w.Knows a := ⟨a, h, rfl, rfl⟩

theorem wp_revertSweep (hs : Wf lists s.world s.calls) (hout : s.IsOut i) :
    Ends lists i (revertSweep hasKey) s := by
  refine wp_op .now (fun _ s => s.IsOut i) hs trivial (fun _ _ _ => IsOut.rely)
    (fun c s' r h e he => hout e (calls_of_exec h ▸ he)) fun now s hs hout => ?_
  refine wp_op (.listDue now)
    (fun r s => s.IsOut i ∧ ∀ due, r = .ok due → ∀ a ∈ due, s.world.Knows a) hs trivial
    (fun r s s' hr h => ⟨h.1.rely hr, fun due hdue a ha => hr.knows a (h.2 due hdue a ha)⟩)
    (fun c s' r h => ⟨fun e he => hout e (calls_of_exec h ▸ he), fun due hdue a ha => ?_⟩)
    fun r s hs h => ?_
  · rw [world_of_exec h]
    rw [(acks_of_report ((answer_of_exec h).symm.trans hdue)).2] at ha
    exact knows_of_mem (mem_filter.mp ((perm_insertionSort _ _).subset ha)).1
  · rcases r with e | due
    · exact h.1
    · exact wp_releaseAll hasKey due hs h.1 (h.2 due rfl)

theorem wp_enforceRelease (id : ActionId) (hs : Wf lists s.world s.calls) (hout : s.IsOut i) :
    Ends lists i (enforceRelease hasKey id) s := by
  refine wp_op (.findById id)
    (fun r s => s.IsOut i ∧ ∀ a, r = .ok (some a) → s.world.Knows a) hs trivial
    (fun r s s' hr h => ⟨h.1.rely hr, fun a ha => hr.knows a (h.2 a ha)⟩)
    (fun c s' r h => ⟨fun e he => hout e (calls_of_exec h ▸ he), fun a ha => ?_⟩)
    fun r s hs h => ?_
  · rw [world_of_exec h]
    have hfind := (acks_of_report ((answer_of_exec h).symm.trans ha)).2
    exact knows_of_mem (mem_of_find?_eq_some hfind.symm)
  · rcases r with e | _ | action
    · exact h.1
    · exact h.1
    · change Runs lists i _ (release hasKey action >>= fun _ => pure ()) s
      refine wp_bind.mpr ?_
      exact wp_mono hs (wp_release hasKey action hs h.1 (h.2 action rfl))
        fun _ _ _ hout => hout

theorem wp_code (job : Job) (hs : Wf lists s.world s.calls) (hout : s.IsOut i) :
    Ends lists i (code hasKey job) s := by
  cases job with
  | apply req =>
    refine wp_bind.mpr ?_
    exact wp_mono hs (wp_apply hasKey req hs hout) fun _ _ _ hout => hout
  | release id => exact wp_enforceRelease hasKey id hs hout
  | sweep => exact wp_revertSweep hasKey hs hout

structure World.Ready (w : World) (lists : Bool) : Prop extends w.Consistent where
  enforced : lists = true → ∀ a ∈ w.actions, a.state = .active →
    a.Enforced ((w.devices a.switchId).port a.ifIndex)

theorem holds_of_reaches {hasKey : Bool} (hw : w.Ready lists)
    {P : CallPool} (h : Reaches hasKey (Orderly lists) w P) :
    Holds (rules lists) Net.exec (Orderly lists) (fun i s => s.IsOut i)
      (fun i _ _ s => s.IsOut i) P := by
  refine reach ?_ (fun i e he => by simp [new] at he)
    (fun i s s' _ hr hout => IsOut.rely hr hout)
    (fun i job s hs hout => wp_code hasKey job hs hout) h
  exact ⟨hw.toConsistent, by simp [new], by simp [new], by simp [new],
    by simp [new], fun hl a ha hstate _ => hw.enforced hl a ha hstate⟩

/-! ### Fixed runs -/

def disablePort (i : ThreadId) : List (Event ThreadId Job Choice) :=
  [.start i (.apply (portRequest .disable)), .run i (.flag true), .run i .done, .run i .done,
    .run i .done, .run i .done, .run i .done]

theorem ready_onePortWorld (lists : Bool) : onePortWorld.Ready lists :=
  ⟨⟨by simp [onePortWorld], by simp [onePortWorld], by simp [onePortWorld]⟩, by simp [onePortWorld]⟩

end Abyssal.Panopticon
