import Abyssal.Panopticon.CallRuns

/-!
# Applying and releasing an action

An action that was applied and then released leaves the port as it was, except that a port that was
not up comes back up, a PVID that is not positive is not restored, and a port that belonged to the
quarantine VLAN before is removed from it. Each call runs alone.

## Main results

* `port_of_apply_release`: the other ports are kept, and when the port is as it was before.
* `not_port_restored_of_member`: a port that is not.
-/

namespace Abyssal.Panopticon

open Resumption Option Prod World

variable {ω ω' : Op → Choice} {w w' w'' : World} {switch : SwitchId} {f : ℕ}

/-! ### The requests -/

/-- The run changes only the port with interface index `f` of the switch, and a result that it
comes to satisfies `Q` with the world after it. -/
structure OnPort {α : Type} (ω : Op → Choice) (switch : SwitchId) (f : ℕ) (x : SnmpM α) (w : World)
    (Q : α → World → Prop) : Prop where
  others : OthersKept w (runM ω x w).2 switch f
  post : ∀ a w', runM ω x w = (.ok a, w') → Q a w'

section Rules

variable {α β : Type} {x : SnmpM α} {Q : α → World → Prop} {R : β → World → Prop}

theorem OnPort.of_run {r : Except String α} (hrun : runM ω x w = (r, w'))
    (hothers : OthersKept w w' switch f) (hpost : ∀ a, r = .ok a → Q a w') :
    OnPort ω switch f x w Q := by
  refine ⟨by rwa [hrun], fun a w₁ h => ?_⟩
  obtain ⟨ha, rfl⟩ := mk.inj (hrun.symm.trans h)
  exact hpost a ha

theorem OnPort.pure {a : α} (h : Q a w) : OnPort ω switch f (pure a) w Q :=
  .of_run rfl (.refl w) fun _ ha => Except.ok.inj ha ▸ h

theorem OnPort.bind {k : α → SnmpM β} (hx : OnPort ω switch f x w Q)
    (hk : ∀ a w', OthersKept w w' switch f → Q a w' → OnPort ω switch f (k a) w' R) :
    OnPort ω switch f (x >>= k) w R := by
  obtain ⟨hothers, hpost⟩ := hx
  rcases hrun : runM ω x w with ⟨e | a, w'⟩
  · rw [hrun] at hothers
    exact .of_run (runM_bind_error hrun) hothers nofun
  · rw [hrun] at hothers
    have hnext := hk a w' hothers (hpost a w' hrun)
    exact .of_run (runM_bind_ok hrun) (hothers.trans hnext.others) fun b hb =>
      hnext.post b _ (Prod.ext hb rfl)

end Rules

theorem onPort_connectFor : OnPort ω switch f (connectFor switch) w fun _ w' => w' = w :=
  .of_run rfl (.refl w) fun _ _ => rfl

variable {oid : Oid}

theorem onPort_snmpGetInt : OnPort ω switch f (snmpGetInt switch oid) w fun n w' =>
    w' = w ∧ (w.devices switch).objects oid = some (.integer n) := by
  obtain ⟨_, hrun⟩ := runM_snmpGetInt ω w switch oid
  refine .of_run hrun (.refl w) fun n hn => ?_
  cases hread : readInt ω w switch oid with
  | none => simp [hread] at hn
  | some =>
    rw [hread] at hn
    exact ⟨rfl, Except.ok.inj hn ▸ objects_of_readInt hread⟩

theorem onPort_bridgePortForIfIndex : OnPort ω switch f (bridgePortForIfIndex switch f) w
    fun p w' => w' = w ∧ (w.devices switch).bridgePort f = some p := by
  obtain ⟨_, hrun⟩ := runM_bridgePortForIfIndex ω w switch f
  refine .of_run hrun (.refl w) fun p hr => ⟨rfl, ?_⟩
  unfold readBridgePort at hr
  split_ifs at hr
  · cases hport : (w.devices switch).bridgePort f with
    | none => simp [hport] at hr
    | some => simpa [hport] using hr

variable {value : OwnedValue}

theorem onPort_snmpSet (h : OthersKept w (w.write switch oid value) switch f) :
    OnPort ω switch f (snmpSet switch oid value) w fun _ w' => w' = w.write switch oid value := by
  refine .of_run runM_snmpSet ?_ fun _ hr => if_pos (Choice.takes_of_acks (acks_of_report hr).1)
  split_ifs
  · exact h
  · exact .refl w

open Device

variable {on : Bool} {column : ℕ → Oid} {what : String}

structure Edited (w w' : World) (switch : SwitchId) (oid : Oid) (p : ℕ) (on : Bool) : Prop where
  bridgePort : ∀ g, (w'.devices switch).bridgePort g = (w.devices switch).bridgePort g
  objects : ∀ other ≠ oid, (w'.devices switch).objects other = (w.devices switch).objects other
  member : (w'.devices switch).member oid p = on

theorem onPort_editVlanPortlist (hcolumn : column = .egressPorts ∨ column = .untaggedPorts)
    {vlan p : ℕ} (hp : (w.devices switch).bridgePort f = some p) :
    OnPort ω switch f (editVlanPortlist switch column vlan p on what) w fun _ w' =>
      Edited w w' switch (column vlan) p on := by
  have hne := bridgePort_ne_zero hp
  obtain ⟨_, hrun⟩ := runM_editVlanPortlist ω w switch column vlan hne on what
  cases hread : readPorts ω w switch (column vlan) with
  | none =>
    rw [hread] at hrun
    exact .of_run hrun (.refl w) nofun
  | some bytes =>
    have hbytes := objects_of_readPorts hread
    simp only [hread] at hrun
    split_ifs at hrun with hsame
    · refine .of_run hrun (.refl w) fun _ _ => ⟨fun _ => rfl, fun _ _ => rfl, ?_⟩
      exact (member_of_objects _ hbytes p).trans hsame
    · have hset := @onPort_snmpSet ω _ _ _ _ _
        (@othersKept_write_portlist _ _ _ _ _ hcolumn _ _ on hp hbytes)
      refine ⟨hrun ▸ hset.others, fun _ _ hedit => ?_⟩
      rw [hset.post _ _ (hrun.symm.trans hedit)]
      refine ⟨fun g => ?_, fun oid hne => ?_, ?_⟩
      all_goals rw [write_devices_self]
      · exact write_bridgePort ..
      · exact write_objects_of_ne _ _ hne
      · rw [member_of_objects _ (write_objects_self ..), contains_portlistSet bytes hne, if_pos rfl]

theorem Edited.member_of_ne {other : Oid} {p q : ℕ}
    (h : Edited w w' switch oid p on) (hne : other ≠ oid) :
    (w'.devices switch).member other q = (w.devices switch).member other q :=
  member_congr (h.objects other hne) q

theorem Edited.member_update {list : ℕ → Oid} {vlan p : ℕ} (hlist : list.Injective)
    (h : Edited w w' switch (list vlan) p on) :
    (fun v => (w'.devices switch).member (list v) p) =
      Function.update (fun v => (w.devices switch).member (list v) p) vlan on := by
  funext v
  by_cases hv : v = vlan
  · rw [hv, Function.update_self, h.member]
  · rw [Function.update_of_ne hv, h.member_of_ne (hlist.ne hv)]

open PortState

theorem Edited.port_egress {vlan p : ℕ} (h : Edited w w' switch (.egressPorts vlan) p on)
    (hp : (w.devices switch).bridgePort f = some p) :
    (w'.devices switch).port f = { (w.devices switch).port f with
      egress := Function.update ((w.devices switch).port f).egress vlan on } := by
  have hp' := (h.bridgePort f).trans hp
  simp only [port, hp, hp', bind_some, any_some, PortState.mk.injEq]
  exact ⟨h.objects _ (by simp), h.objects _ (by simp),
    h.member_update fun _ _ => Oid.egressPorts.inj, funext fun _ => h.member_of_ne (by simp)⟩

theorem Edited.port_untagged {vlan p : ℕ} (h : Edited w w' switch (.untaggedPorts vlan) p on)
    (hp : (w.devices switch).bridgePort f = some p) :
    (w'.devices switch).port f = { (w.devices switch).port f with
      untagged := Function.update ((w.devices switch).port f).untagged vlan on } := by
  have hp' := (h.bridgePort f).trans hp
  simp only [port, hp, hp', bind_some, any_some, PortState.mk.injEq]
  exact ⟨h.objects _ (by simp), h.objects _ (by simp), funext fun _ => h.member_of_ne (by simp),
    h.member_update fun _ _ => Oid.untaggedPorts.inj⟩

/-! ### The port -/

def PortState.quarantined (s : PortState) (vlan : ℕ) : PortState :=
  { s with
    pvid := some (.integer vlan)
    egress := Function.update s.egress vlan true
    untagged := Function.update s.untagged vlan true }

def PortState.unquarantined (s : PortState) (restorePvid : ℤ) (vlan : ℕ) : PortState :=
  { s with
    pvid := if 0 < restorePvid then some (.integer restorePvid) else s.pvid
    egress := Function.update s.egress vlan false
    untagged := Function.update s.untagged vlan false }

theorem onPort_enforceDisablePort : OnPort ω switch f (enforceDisablePort switch f) w fun n w' =>
    ((w.devices switch).port f).adminStatus = some (.integer n) ∧ (w'.devices switch).port f =
        { (w.devices switch).port f with adminStatus := some (.integer ifAdminDown) } := by
  refine onPort_connectFor.bind fun _ _ _ hw => ?_
  subst hw
  refine onPort_snmpGetInt.bind fun _ _ _ ⟨hw, hobj⟩ => ?_
  subst hw
  refine (onPort_snmpSet othersKept_adminStatus).bind fun _ _ _ hw => .pure ⟨hobj, ?_⟩
  rw [hw, write_devices_self, port_write_adminStatus]

theorem onPort_revertDisablePort {restoreTo : Option ℤ} :
    OnPort ω switch f (revertDisablePort switch f restoreTo) w fun _ w' =>
      (w'.devices switch).port f = { (w.devices switch).port f with
        adminStatus := some (.integer (restoredAdminStatus restoreTo)) } := by
  refine onPort_connectFor.bind fun _ _ _ hw => ?_
  subst hw
  obtain ⟨hothers, hpost⟩ := onPort_snmpSet othersKept_adminStatus
  refine ⟨hothers, fun _ _ hrun => ?_⟩
  rw [hpost _ _ hrun, write_devices_self, port_write_adminStatus]

theorem onPort_enforceQuarantinePort {vlan : ℕ} :
    OnPort ω switch f (enforceQuarantinePort switch f vlan) w fun n w' =>
      ((w.devices switch).port f).pvid = some (.integer n) ∧
        (w'.devices switch).port f = ((w.devices switch).port f).quarantined vlan := by
  refine onPort_connectFor.bind fun _ _ _ hw => ?_
  subst hw
  refine onPort_bridgePortForIfIndex.bind fun p _ _ ⟨hw, hp⟩ => ?_
  subst hw
  refine onPort_snmpGetInt.bind fun _ _ _ ⟨hw, hobj⟩ => ?_
  subst hw
  refine (onPort_editVlanPortlist (.inl rfl) hp).bind fun _ _ hk hegress => ?_
  have hp' := (hk.bridgePort f).trans hp
  refine (onPort_editVlanPortlist (.inr rfl) hp').bind fun _ _ hk huntagged => ?_
  have hp'' := (hk.bridgePort f).trans hp'
  refine (onPort_snmpSet (othersKept_pvid hp'')).bind fun _ _ _ hw => .pure ⟨?_, ?_⟩
  · simp [port, hp, hobj]
  · rw [hw, write_devices_self, port_write_pvid _ hp'', huntagged.port_untagged hp',
      hegress.port_egress hp]
    rfl

/-- Both lists are edited after the PVID, if that is restored. -/
theorem onPort_revertQuarantinePort {restorePvid : Option ℤ} {vlan : ℕ} :
    OnPort ω switch f (revertQuarantinePort switch f restorePvid vlan) w fun _ w' =>
      (w'.devices switch).port f =
        ((w.devices switch).port f).unquarantined (restorePvid.getD 0) vlan := by
  refine onPort_connectFor.bind fun _ _ _ hw => ?_
  subst hw
  refine onPort_bridgePortForIfIndex.bind fun p w _ ⟨hw, hp⟩ => ?_
  subst hw
  have hedits : ∀ {w₁ : World} {s : PortState}, (w₁.devices switch).bridgePort f = some p →
      (w₁.devices switch).port f = s → OnPort ω switch f (do
        editVlanPortlist switch .untaggedPorts vlan p false
          "quarantine VLAN untagged ports (revert)"
        editVlanPortlist switch .egressPorts vlan p false
          "quarantine VLAN egress ports (revert)") w₁ fun _ w' =>
        (w'.devices switch).port f = { s with
          egress := Function.update s.egress vlan false
          untagged := Function.update s.untagged vlan false } := by
    rintro w₁ s hp rfl
    refine (onPort_editVlanPortlist (.inr rfl) hp).bind fun _ _ hk huntagged => ?_
    have hp' := (hk.bridgePort f).trans hp
    obtain ⟨hothers, hpost⟩ := onPort_editVlanPortlist (.inl rfl) hp'
    refine ⟨hothers, fun _ _ hrun => ?_⟩
    rw [(hpost _ _ hrun).port_egress hp', huntagged.port_untagged hp]
  cases restorePvid with
  | none => exact hedits hp rfl
  | some n =>
    unfold unquarantined
    by_cases hn : 0 < n
    · simp only [hn, ↓reduceIte, getD_some]
      refine (onPort_snmpSet (othersKept_pvid hp)).bind fun _ _ hk hw => ?_
      refine hedits (s := { (w.devices switch).port f with pvid := some (.integer n) })
        ((hk.bridgePort f).trans hp) ?_
      rw [hw, write_devices_self, port_write_pvid _ hp]
    · simp only [hn, ↓reduceIte, getD_some]
      exact hedits hp rfl

variable {req : EnforceRequest}

theorem othersKept_enforcePort {vlan : ℕ} :
    OthersKept w (runM ω (enforcePort req vlan) w).2 req.switch.id req.ifIndex := by
  unfold enforcePort
  cases req.kind with
  | disable =>
    exact (onPort_enforceDisablePort.bind fun _ _ _ _ =>
      .pure (Q := fun _ _ => True) trivial).others
  | quarantine =>
    exact (onPort_enforceQuarantinePort.bind fun _ _ _ _ =>
      .pure (Q := fun _ _ => True) trivial).others

variable {action : Action}

theorem othersKept_revertPort :
    OthersKept w (runM ω (revertPort action) w).2 action.switchId action.ifIndex := by
  unfold revertPort
  cases action.kind with
  | disable => exact onPort_revertDisablePort.others
  | quarantine => exact onPort_revertQuarantinePort.others

theorem devices_exec_create (new : NewAction) (c : Choice) (w : World) :
    (exec (.create new) c w).1.devices = w.devices := by
  simp only [exec]
  split_ifs <;> rfl

private theorem devices_exec_markReverted (id : ActionId) (state : EnforcementState)
    (error : Option String) (c : Choice) (w : World) :
    (exec (.markReverted id state error) c w).1.devices = w.devices := by
  simp only [exec]
  split_ifs <;> rfl

variable (ω)

theorem othersKept_apply (w : World) (hasKey : Bool) (req : EnforceRequest) :
    OthersKept w ((apply hasKey req).run exec ω w).2 req.switch.id req.ifIndex := by
  obtain ⟨-, he⟩ | ⟨-, e, he⟩ := run_apply ω w hasKey req
  · rw [he, run_enforceAndRecord]
    have hkept : OthersKept w (runM ω (enforcePort req ((vlanOf ω req).getD 0)) w).2
        req.switch.id req.ifIndex := othersKept_enforcePort
    rcases hrun : runM ω (enforcePort req ((vlanOf ω req).getD 0)) w with ⟨message | prior, w'⟩
    all_goals
      rw [hrun] at hkept
      exact hkept.trans (.of_devices_eq (devices_exec_create ..))
  · rw [he]
    exact .refl w

/-- A release changes devices by the requests of the revert only, and if it succeeds, so did these,
unless the switch no longer exists. -/
theorem devices_release (w : World) (hasKey : Bool) (action : Action) :
    (((release hasKey action).run exec ω w).2.devices = w.devices ∧
      (((release hasKey action).run exec ω w).1 = .ok () → ω (.findSwitch action) = .absent)) ∨
    (((release hasKey action).run exec ω w).2.devices = (runM ω (revertPort action) w).2.devices ∧
      (((release hasKey action).run exec ω w).1 = .ok () →
        (runM ω (revertPort action) w).1 = .ok ())) := by
  cases hasKey with
  | false => exact .inl ⟨devices_exec_markReverted .., nofun⟩
  | true =>
    have hfind : exec (.findSwitch action) (ω (.findSwitch action)) w = (w,
        (ω (.findSwitch action)).report (decide (ω (.findSwitch action) ≠ .absent))) := rfl
    have hrun : (revertPort action).run.run exec ω w = runM ω (revertPort action) w := rfl
    simp only [release, Bool.not_true, Bool.false_eq_true, ↓reduceIte, Prog.perform_bind,
      Prog.run_call, hfind]
    by_cases hacks : (ω (.findSwitch action)).acks
    swap
    · obtain ⟨message, hmessage⟩ := Choice.report_of_not_acks
        (a := decide (ω (.findSwitch action) ≠ .absent)) (Bool.eq_false_iff.mpr hacks)
      rw [hmessage]
      exact .inl ⟨rfl, nofun⟩
    rw [Choice.report_of_acks hacks]
    by_cases hswitch : ω (.findSwitch action) = .absent
    · rw [hswitch]
      exact .inl ⟨devices_exec_markReverted .., fun _ => rfl⟩
    · rw [decide_eq_true hswitch]
      right
      simp only [Prog.run_bind, hrun]
      rcases runM ω (revertPort action) w with ⟨message | u, w'⟩
      · exact ⟨devices_exec_markReverted .., nofun⟩
      · refine ⟨?_, fun _ => rfl⟩
        simp only [Prog.run_call]
        have hmark := devices_exec_markReverted action.id .reverted none
          (ω (.markReverted action.id .reverted none)) w'
        split <;> exact hmark

theorem othersKept_release (w : World) (hasKey : Bool) (action : Action) :
    OthersKept w ((release hasKey action).run exec ω w).2 action.switchId action.ifIndex := by
  obtain ⟨hdevices, -⟩ | ⟨hdevices, -⟩ := devices_release ω w hasKey action
  · exact .of_devices_eq hdevices
  · exact OthersKept.trans othersKept_revertPort (.of_devices_eq hdevices)

variable {ω}

theorem runM_bind_eq_ok {α β : Type} {x : SnmpM α} {k : α → SnmpM β} {b : β}
    (h : runM ω (x >>= k) w = (.ok b, w'')) :
    ∃ a w', runM ω x w = (.ok a, w') ∧ runM ω (k a) w' = (.ok b, w'') := by
  rcases hrun : runM ω x w with ⟨e | a, w'⟩
  · rw [runM_bind_error hrun] at h
    simp at h
  · rw [runM_bind_ok hrun] at h
    exact ⟨a, w', rfl, h⟩

/-! ### Both calls -/

def NewAction.vlan (a : NewAction) : ℕ := (max (a.quarantineVlan.getD 0) 0).toNat

/-- The state of a port after an action on it was applied and released, where `s` is the state
before. -/
def PortState.released (s : PortState) (a : NewAction) : PortState :=
  match a.kind with
  | .disable =>
    { s with
      adminStatus := if s.adminStatus = some (.integer 3) then s.adminStatus
        else some (.integer ifAdminUp) }
  | .quarantine =>
    { s with
      pvid := match s.pvid with
        | some (.integer n) => if 0 < n then s.pvid else some (.integer a.vlan)
        | _ => s.pvid
      egress := Function.update s.egress a.vlan false
      untagged := Function.update s.untagged a.vlan false }

/-- A port that was up or testing; a port with a PVID that did not belong to the quarantine VLAN. -/
def PortState.Restorable (s : PortState) (a : NewAction) : Prop :=
  match a.kind with
  | .disable => s.adminStatus = some (.integer ifAdminUp) ∨ s.adminStatus = some (.integer 3)
  | .quarantine => (∀ n, s.pvid = some (.integer n) → 0 < n) ∧ s.egress a.vlan = false ∧
      s.untagged a.vlan = false

/-- An action that was applied and is released leaves the port in its prior state exactly if this
state is restorable. -/
theorem PortState.released_eq_iff (s : PortState) {a : NewAction}
    (ha : a.vlan ≠ 0 ∨ a.kind = .disable) : s.released a = s ↔ s.Restorable a := by
  unfold released Restorable
  cases hkind : a.kind with
  | disable =>
    simp only [PortState.ext_iff, and_true]
    by_cases h3 : s.adminStatus = some (.integer 3)
    · simp [h3]
    · simp only [h3, ↓reduceIte, or_false]
      exact eq_comm
  | quarantine =>
    have hv : a.vlan ≠ 0 := ha.resolve_right (by simp [hkind])
    simp only [PortState.ext_iff, true_and, Function.update_eq_self_iff]
    refine and_congr ?_ (and_congr eq_comm eq_comm)
    rcases s.pvid with _ | n | bytes | n
    · simp
    · by_cases hn : 0 < n
      · simp [hn]
      · have hne : (a.vlan : ℤ) ≠ n := by omega
        simp [hn, hne]
    · simp
    · simp

variable {hasKey : Bool} {u : Unit}

theorem row_of_apply {id : ActionId} (h : (apply hasKey req).run exec ω w = (.ok id, w')) :
    vlanOf ω req ≠ some 0 ∧ ∃ prior w₁,
      runM ω (enforcePort req ((vlanOf ω req).getD 0)) w = (.ok prior, w₁) ∧
      w'.devices = w₁.devices ∧ w'.findById id = some
        ⟨req.newAction .active prior.1 prior.2 (vlanOf ω req) (expiryOf ω req) none, id⟩ := by
  obtain ⟨hadm, he⟩ | ⟨-, e, he⟩ := run_apply ω w hasKey req
  swap
  · cases he.symm.trans h
  refine ⟨hadm.2.2.2.2.2, ?_⟩
  rw [he, run_enforceAndRecord] at h
  rcases hrun : runM ω (enforcePort req ((vlanOf ω req).getD 0)) w with ⟨message | prior, w₁⟩
  · rw [hrun] at h
    simp at h
  · rw [hrun] at h
    obtain ⟨hr, hw⟩ := mk.inj h
    refine ⟨prior, w₁, rfl, hw ▸ devices_exec_create .., ?_⟩
    set new := req.newAction .active prior.1 prior.2 (vlanOf ω req) (expiryOf ω req) none
    cases hreport : (ω (.create new)).report w₁.nextId with
    | error => simp [hreport, Except.mapError] at hr
    | ok id' =>
      obtain rfl : id' = id := by simpa [hreport, Except.mapError] using hr
      obtain ⟨hacks, rfl⟩ := acks_of_report hreport
      have hw' : w' = w₁.insert new := hw.symm.trans (if_pos (Choice.takes_of_acks hacks))
      rw [hw']
      simp [World.findById, World.insert]

theorem revert_of_release (hswitch : ω (.findSwitch action) ≠ .absent)
    (h : (release hasKey action).run exec ω w = (.ok u, w')) :
    ∃ w₁, runM ω (revertPort action) w = (.ok (), w₁) ∧ w'.devices = w₁.devices := by
  have hrelease := devices_release ω w hasKey action
  rw [h] at hrelease
  obtain ⟨-, habsent⟩ | ⟨hdevices, hok⟩ := hrelease
  · exact absurd (habsent rfl) hswitch
  · exact ⟨_, Prod.ext (hok rfl) rfl, hdevices⟩

private theorem restoredAdminStatus_some (n : ℤ) :
    restoredAdminStatus (some n) = if n = 3 then 3 else ifAdminUp := by
  unfold restoredAdminStatus ifAdminUp ifAdminDown
  grind

private theorem port_of_enforcePort_revertPort {vlan : ℕ}
    {prior : Option ℤ × Option ℤ} (action : Action) (hkind : action.kind = req.kind)
    (hswitch : action.switchId = req.switch.id) (hindex : action.ifIndex = req.ifIndex)
    (hadmin : action.originalAdminStatus = prior.1) (hpvid : action.originalPvid = prior.2)
    (hvlan : action.vlan = vlan)
    {w₁ : World} (happly : runM ω (enforcePort req vlan) w = (.ok prior, w₁))
    (hdevices : w'.devices = w₁.devices)
    (hrelease : runM ω' (revertPort action) w' = (.ok u, w'')) :
    (w''.devices req.switch.id).port req.ifIndex =
      ((w.devices req.switch.id).port req.ifIndex).released action.toNewAction := by
  unfold enforcePort at happly
  unfold revertPort at hrelease
  rw [hswitch, hindex, hadmin, hpvid] at hrelease
  unfold released
  cases hk : req.kind with
  | disable =>
    rw [hk] at happly hkind
    rw [hkind] at hrelease ⊢
    obtain ⟨n, w₂, henforce, hpure⟩ := runM_bind_eq_ok happly
    obtain ⟨hprior, rfl⟩ := mk.inj hpure
    cases hprior
    obtain ⟨hold, hport⟩ := onPort_enforceDisablePort.post _ _ henforce
    rw [onPort_revertDisablePort.post _ _ hrelease, hdevices, hport, hold, restoredAdminStatus_some]
    by_cases h3 : n = 3
    · simp [h3]
    · simp [h3]
  | quarantine =>
    rw [hk] at happly hkind
    rw [hkind] at hrelease ⊢
    obtain ⟨_, _, henforce, hpure⟩ := runM_bind_eq_ok happly
    obtain ⟨hprior, rfl⟩ := mk.inj hpure
    cases hprior
    obtain ⟨hold, hport⟩ := onPort_enforceQuarantinePort.post _ _ henforce
    have hv : (max (action.quarantineVlan.getD 0) 0).toNat = vlan := hvlan
    rw [hv] at hrelease
    rw [onPort_revertQuarantinePort.post _ _ hrelease, hdevices, hport, hvlan]
    simp [unquarantined, quarantined, hold, Function.update_idem]

/-- Applying and releasing an action, each run alone, keep every other port, and leave the port as
`released` says: in its prior state exactly if that is restorable. -/
theorem port_of_apply_release (ω : Op → Choice) (w : World) (hasKey : Bool) (req : EnforceRequest) :
    OthersKept w ((apply hasKey req).run exec ω w).2 req.switch.id req.ifIndex ∧
    (∀ action,
      OthersKept w ((release hasKey action).run exec ω w).2 action.switchId action.ifIndex) ∧
    ∀ id w', (apply hasKey req).run exec ω w = (.ok id, w') →
      ∃ action, w'.findById id = some action ∧ ∀ ω' hasKey' w'', ω' (.findSwitch action) ≠ .absent →
        (release hasKey' action).run exec ω' w' = (.ok (), w'') →
        let prior := (w.devices req.switch.id).port req.ifIndex
        (w''.devices req.switch.id).port req.ifIndex = prior.released action.toNewAction ∧
          ((w''.devices req.switch.id).port req.ifIndex = prior ↔
            prior.Restorable action.toNewAction) := by
  refine ⟨othersKept_apply ω w hasKey req, othersKept_release ω w hasKey, fun id w' happly => ?_⟩
  obtain ⟨hvlan, prior, _, henforce, hdevices, hfind⟩ := row_of_apply happly
  refine ⟨_, hfind, fun ω' hasKey' w'' hswitch hrelease => ?_⟩
  obtain ⟨_, hrevert, hdevices'⟩ := revert_of_release hswitch hrelease
  set action : Action :=
    ⟨req.newAction .active prior.1 prior.2 (vlanOf ω req) (expiryOf ω req) none, id⟩
  have hv : action.vlan = (vlanOf ω req).getD 0 := by
    change (max ((Option.map (↑) (vlanOf ω req)).getD (0 : ℤ)) 0).toNat = _
    cases vlanOf ω req with
    | none => rfl
    | some => simp
  have hport := port_of_enforcePort_revertPort action rfl rfl rfl rfl rfl hv henforce
    hdevices hrevert
  rw [← hdevices'] at hport
  refine ⟨hport, ?_⟩
  rw [hport]
  refine released_eq_iff _ ?_
  cases hkind : req.kind with
  | disable => exact .inr hkind
  | quarantine =>
    left
    unfold vlanOf at hv hvlan
    rw [hkind] at hv hvlan
    rw [hv]
    simpa using hvlan

theorem port_of_apply_release_quarantine :
    ∃ id w' action w'',
      (apply true (portRequest .quarantine)).run exec allDone onePortWorld = (.ok id, w') ∧
      w'.findById id = some action ∧
      (release true action).run exec allDone w' = (.ok (), w'') ∧
      (w''.devices 0).port 1 = (onePortWorld.devices 0).port 1 := by
  obtain ⟨action, hfind, h⟩ :=
    (port_of_apply_release allDone onePortWorld true (portRequest .quarantine)).2.2 0 _ rfl
  obtain rfl : (⟨(portRequest .quarantine).newAction .active none (some 10) (some 99) none none,
      0⟩ : Action) = action := some.inj hfind
  refine ⟨0, _, _, _, rfl, hfind, rfl, (h allDone true _ (by decide) rfl).2.mpr ?_⟩
  refine ⟨fun n hn => ?_, by decide, by decide⟩
  have h10 : (10 : ℤ) = n := OwnedValue.integer.inj (some.inj hn)
  omega

def taggedWorld : World := onePortWorld.write 0 (.egressPorts 99) (.octetString [128])

/-- A port that was a tagged member of the quarantine VLAN is removed from it by the release. -/
theorem not_port_restored_of_member :
    ¬ ∀ ω ω' w hasKey req id w' action w'',
      (apply hasKey req).run exec ω w = (.ok id, w') → w'.findById id = some action →
      (release hasKey action).run exec ω' w' = (.ok (), w'') →
      (w''.devices req.switch.id).port req.ifIndex =
        (w.devices req.switch.id).port req.ifIndex := by
  intro h
  have hport := h allDone allDone taggedWorld true (portRequest .quarantine) 0 _
    ⟨(portRequest .quarantine).newAction .active none (some 10) (some 99) none none, 0⟩ _
    rfl rfl rfl
  have hegress := congrFun (congrArg egress hport) 99
  revert hegress
  decide

end Abyssal.Panopticon
