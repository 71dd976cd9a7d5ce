import Abyssal.Panopticon.Enforcement

/-!
# Runs of a single call

What an enforcement call does when no other call runs in between, for every outcome of the single
operations: an outcome is chosen for every operation by a function `ω`. The operations of one
call are pairwise different, so that every combination of outcomes is covered.
-/

namespace Abyssal.Panopticon

open Resumption List Option World Bool

variable {ω : Op → Choice} {w : World} {switch : SwitchId}

def Choice.acks : Choice → Bool
  | .failed _ => false
  | .lost _ => false
  | _ => true

variable {c : Choice}

open Choice

variable {α : Type} {a : α}

theorem Choice.report_of_acks (h : c.acks) : c.report a = .ok a := by
  cases c <;> simp_all [acks, report]

theorem Choice.report_of_not_acks (h : c.acks = false) :
    ∃ message, c.report a = .error message := by
  cases c <;> simp_all [acks, report]

theorem Choice.takes_of_acks (h : c.acks) : c.takes := by
  cases c <;> simp_all [acks, takes]

theorem acks_of_report {b : α} (h : c.report a = .ok b) : c.acks ∧ b = a := by
  cases c <;> simp_all [report, acks]

variable (ω)

def readInt (w : World) (switch : SwitchId) (oid : Oid) : Option ℤ :=
  if (ω (.get switch oid)).acks then
    match (w.devices switch).objects oid with
    | some (.integer n) => some n
    | _ => none
  else none

def readPorts (w : World) (switch : SwitchId) (oid : Oid) : Option PortList :=
  if (ω (.get switch oid)).acks then
    match (w.devices switch).objects oid with
    | some (.octetString bytes) => some bytes
    | _ => none
  else none

def readBridgePort (w : World) (switch : SwitchId) (ifIndex : ℕ) : Option ℕ :=
  if (ω (.walkBasePorts switch)).acks then (w.devices switch).bridgePort ifIndex else none

/-! ### Requests one by one -/

def runM (x : SnmpM α) (w : World) : Except String α × World :=
  x.run.run exec ω w

variable {ω}

@[simp] theorem runM_pure (a : α) : runM ω (pure a) w = (.ok a, w) := rfl

@[simp] theorem runM_throw (e : String) : runM ω (throw e : SnmpM α) w = (.error e, w) := rfl

open Prog

variable {β : Type}

theorem runM_bind (x : SnmpM α) (f : α → SnmpM β) :
    runM ω (x >>= f) w = match runM ω x w with
      | (.ok a, w') => runM ω (f a) w'
      | (.error e, w') => (.error e, w') := by
  unfold runM
  rw [ExceptT.run_bind, run_bind]
  rcases x.run.run exec ω w with ⟨e | a, w'⟩ <;> rfl

variable {x : SnmpM α} {w' : World}

theorem runM_bind_ok {f : α → SnmpM β}
    (h : runM ω x w = (.ok a, w')) : runM ω (x >>= f) w = runM ω (f a) w' := by
  rw [runM_bind, h]

theorem runM_bind_error {f : α → SnmpM β} {e : String}
    (h : runM ω x w = (.error e, w')) : runM ω (x >>= f) w = (.error e, w') := by
  rw [runM_bind, h]

theorem runM_connectFor : runM ω (connectFor switch) w = ((ω (.connect switch)).report (), w) := rfl

variable {oid : Oid}

theorem runM_snmpSet {value : OwnedValue} :
    runM ω (snmpSet switch oid value) w = ((ω (.set switch oid value)).report (),
      if (ω (.set switch oid value)).takes then w.write switch oid value else w) := rfl

variable (ω)

variable (w)

variable (switch)

theorem runM_snmpGet (oid : Oid) :
    ∃ e, runM ω (snmpGet switch oid) w =
      (match (if (ω (.get switch oid)).acks then (w.devices switch).objects oid else none) with
        | some value => .ok value
        | none => .error e, w) := by
  have hrun : runM ω (snmpGet switch oid) w =
      ((ω (.get switch oid)).report () >>= fun _ => (w.devices switch).get oid, w) := rfl
  by_cases hacks : (ω (.get switch oid)).acks
  · rw [hrun, report_of_acks hacks, if_pos hacks]
    cases hobj : (w.devices switch).objects oid with
    | none => exact ⟨_, by simp only [Device.get, hobj]; rfl⟩
    | some => exact ⟨"", by simp only [Device.get, hobj]; rfl⟩
  · obtain ⟨message, hmessage⟩ := report_of_not_acks (a := ()) (not_eq_true _ ▸ hacks)
    rw [hrun, hmessage, if_neg hacks]
    exact ⟨message, rfl⟩

theorem runM_snmpGetInt (oid : Oid) :
    ∃ e, runM ω (snmpGetInt switch oid) w = (match readInt ω w switch oid with
        | some n => .ok n
        | none => .error e, w) := by
  obtain ⟨e, he⟩ := runM_snmpGet ω w switch oid
  rw [snmpGetInt, runM_bind, he]
  unfold readInt
  by_cases hacks : (ω (.get switch oid)).acks
  · rw [if_pos hacks, if_pos hacks]
    rcases (w.devices switch).objects oid with _ | n | bytes | n
    · exact ⟨e, rfl⟩
    · exact ⟨"", rfl⟩
    · exact ⟨_, rfl⟩
    · exact ⟨_, rfl⟩
  · rw [if_neg hacks, if_neg hacks]
    exact ⟨e, rfl⟩

theorem runM_bridgePortForIfIndex (ifIndex : ℕ) :
    ∃ e, runM ω (bridgePortForIfIndex switch ifIndex) w =
      (match readBridgePort ω w switch ifIndex with
        | some bridgePort => .ok bridgePort
        | none => .error e, w) := by
  have hwalk : runM ω (ExceptT.mk (perform (.walkBasePorts switch))) w =
      ((ω (.walkBasePorts switch)).report (w.devices switch).walk, w) := rfl
  rw [bridgePortForIfIndex, runM_bind, hwalk]
  unfold readBridgePort
  by_cases hacks : (ω (.walkBasePorts switch)).acks
  · rw [report_of_acks hacks, if_pos hacks]
    cases hport : (w.devices switch).bridgePort ifIndex with
    | none =>
      rw [Device.bridgePort] at hport
      simp only [hport, runM_throw]
      exact ⟨_, rfl⟩
    | some =>
      rw [Device.bridgePort] at hport
      simp only [hport, runM_pure]
      exact ⟨"", trivial⟩
  · obtain ⟨message, hmessage⟩ := report_of_not_acks (a := (w.devices switch).walk)
      (not_eq_true _ ▸ hacks)
    rw [hmessage, if_neg hacks]
    exact ⟨message, rfl⟩

theorem runM_editVlanPortlist
    (column : ℕ → Oid) (vlan : ℕ) {bridgePort : ℕ} (hport : bridgePort ≠ 0) (on : Bool)
    (what : String) :
    ∃ e, runM ω (editVlanPortlist switch column vlan bridgePort on what) w =
      match readPorts ω w switch (column vlan) with
      | none => (.error e, w)
      | some bytes =>
        if bytes.contains bridgePort = on then (.ok (), w)
        else runM ω (snmpSet switch (column vlan)
          (.octetString (portlistSet bytes bridgePort on).1)) w := by
  obtain ⟨e, he⟩ := runM_snmpGet ω w switch (column vlan)
  rw [editVlanPortlist, runM_bind, he]
  unfold readPorts
  by_cases hacks : (ω (.get switch (column vlan))).acks
  · rw [if_pos hacks, if_pos hacks]
    rcases (w.devices switch).objects (column vlan) with _ | n | bytes | n
    · exact ⟨e, rfl⟩
    · exact ⟨_, rfl⟩
    · refine ⟨e, ?_⟩
      have hchanged := portlistSet_changed bytes hport on
      by_cases hsame : bytes.contains bridgePort = on
      · have hfalse : (portlistSet bytes bridgePort on).2 = false := by
          rw [eq_false_iff, Ne, hchanged]
          exact fun h => h hsame
        simp only [hfalse, false_eq_true, ↓reduceIte, if_pos hsame]
        rfl
      · have htrue := hchanged.mpr hsame
        simp [htrue, if_neg hsame]
    · exact ⟨_, rfl⟩
  · rw [if_neg hacks, if_neg hacks]
    exact ⟨e, rfl⟩

/-! ### The state of a port after a SET -/

@[simp] theorem Device.write_objects_self (d : Device) (oid : Oid) (value : OwnedValue) :
    (d.write oid value).objects oid = some value :=
  Function.update_self ..

theorem Device.write_objects_of_ne (d : Device) {oid' : Oid} (value : OwnedValue)
    (h : oid' ≠ oid) : (d.write oid value).objects oid' = d.objects oid' :=
  Function.update_of_ne h ..

@[simp] theorem Device.write_bridgePort (d : Device) (oid : Oid) (value : OwnedValue) (f : ℕ) :
    (d.write oid value).bridgePort f = d.bridgePort f := rfl

variable {bytes : PortList}

theorem Device.member_of_objects (d : Device)
    (h : d.objects oid = some (.octetString bytes)) (q : ℕ) :
    d.member oid q = bytes.contains q := by
  simp [member, h]

variable {d : Device}

theorem Device.member_congr {d' : Device} (h : d'.objects oid = d.objects oid)
    (q : ℕ) : d'.member oid q = d.member oid q := by
  simp [member, h]

variable {f p : ℕ}

theorem Device.mem_basePorts_of_bridgePort
    (h : d.bridgePort f = some p) : (p, .integer f) ∈ d.basePorts := by
  obtain ⟨e, he, rfl⟩ := map_eq_some_iff.mp h
  have hvalue : e.2 = .integer f := by simpa using find?_some he
  have hmem := take_subset _ _ (mem_of_find?_eq_some he)
  rwa [← hvalue]

theorem Device.bridgePort_ne_zero (h : d.bridgePort f = some p) : p ≠ 0 := by
  have hrange := (d.basePorts_range _ (mem_basePorts_of_bridgePort h)).1
  exact Nat.one_le_iff_ne_zero.mp hrange

theorem Device.bridgePort_inj {f' : ℕ} (h : d.bridgePort f = some p)
    (h' : d.bridgePort f' = some p) : f = f' := by
  have heq := inj_on_of_nodup_map d.nodup_basePorts (mem_basePorts_of_bridgePort h)
    (mem_basePorts_of_bridgePort h') rfl
  have hvalue := (Prod.mk.inj heq).2
  exact_mod_cast OwnedValue.integer.inj hvalue

variable {switch}

@[simp] theorem World.write_devices_self (oid : Oid) (value : OwnedValue) :
    (w.write switch oid value).devices switch = (w.devices switch).write oid value :=
  Function.update_self ..

theorem World.write_devices_of_ne {other : SwitchId} (oid : Oid) (value : OwnedValue)
    (h : other ≠ switch) : (w.write switch oid value).devices other = w.devices other :=
  Function.update_of_ne h ..

variable {ω}

variable {w}

theorem objects_of_readPorts (h : readPorts ω w switch oid = some bytes) :
    (w.devices switch).objects oid = some (.octetString bytes) := by
  unfold readPorts at h
  split_ifs at h
  split at h
  · rename_i hobj
    rw [hobj, some.inj h]
  · simp at h

theorem objects_of_readInt {n : ℤ} (h : readInt ω w switch oid = some n) :
    (w.devices switch).objects oid = some (.integer n) := by
  unfold readInt at h
  split_ifs at h
  split at h
  · rename_i hobj
    rw [hobj, some.inj h]
  · simp at h

/-! ### The gates of `apply` -/

variable (ω)

def settingVlan : ℕ :=
  match ω .quarantineVlan with
  | .number vlan => vlan
  | _ => 0

variable (req : EnforceRequest)

def vlanOf : Option ℕ :=
  match req.kind with
  | .disable => none
  | .quarantine => some (settingVlan ω)

def expiryOf : Option ℕ :=
  if 0 < req.timeoutMinutes then
    some ((match ω .now with | .number now => now | _ => 0) + 60 * req.timeoutMinutes)
  else none

variable (w)

def Admitted (hasKey : Bool) (req : EnforceRequest) : Prop :=
  ω .enforcementEnabled = .flag true ∧ req.switch.enforcementEnabled = true ∧ hasKey = true ∧
    (ω (.findInEffect req.target)).acks = true ∧
    w.findInEffect req.switch.id req.ifIndex = none ∧ vlanOf ω req ≠ some 0

private theorem run_requestedVlan :
    (requestedVlan req).run exec ω w =
      (if vlanOf ω req = some 0 then .error .quarantineVlanUnset else .ok (vlanOf ω req), w) := by
  unfold requestedVlan vlanOf
  cases req.kind with
  | disable => rfl
  | quarantine =>
    have hvlan : (exec .quarantineVlan (ω .quarantineVlan) w) = (w, settingVlan ω) := rfl
    simp only [perform_bind, run_call, hvlan, some.injEq]
    split_ifs <;> rfl

private theorem run_expiry : (expiry req).run exec ω w = (expiryOf ω req, w) := by
  unfold expiry expiryOf
  split_ifs <;> rfl

theorem run_apply (hasKey : Bool) (req : EnforceRequest) :
    (Admitted ω w hasKey req ∧ (apply hasKey req).run exec ω w =
      (enforceAndRecord req (vlanOf ω req) (expiryOf ω req)).run exec ω w) ∨
    (¬ Admitted ω w hasKey req ∧ ∃ e, (apply hasKey req).run exec ω w = (.error e, w)) := by
  have hen : exec .enforcementEnabled (ω .enforcementEnabled) w =
      (w, decide (ω .enforcementEnabled = .flag true)) := by
    rcases ω .enforcementEnabled with _ | _ | _ | (_ | _) | _ | _ <;> rfl
  have hfind : exec (.findInEffect req.target) (ω (.findInEffect req.target)) w =
      (w, (ω (.findInEffect req.target)).report (w.findInEffect req.switch.id req.ifIndex)) := rfl
  unfold apply Admitted
  simp only [perform_bind, run_call, hen]
  by_cases henabled : ω .enforcementEnabled = .flag true
  swap
  · simp [henabled]
  cases hswitch : req.switch.enforcementEnabled with
  | false => simp [henabled]
  | true =>
    cases hasKey with
    | false => simp [henabled]
    | true =>
      simp only [henabled, decide_true, Bool.not_true, Bool.false_eq_true, if_false, run_call,
        hfind]
      by_cases hacks : (ω (.findInEffect req.target)).acks
      swap
      · obtain ⟨message, hmessage⟩ := report_of_not_acks
          (a := w.findInEffect req.switch.id req.ifIndex) (eq_false_iff.mpr hacks)
        simp [hacks, hmessage]
      rw [report_of_acks hacks]
      cases hnone : w.findInEffect req.switch.id req.ifIndex with
      | some => simp
      | none =>
        simp only [run_bind, run_requestedVlan]
        by_cases hvlan : vlanOf ω req = some 0
        · simp [hvlan]
        · simp [hvlan, hacks, run_expiry, run_bind]

theorem run_enforceAndRecord (vlan expiresAt : Option ℕ) :
    (enforceAndRecord req vlan expiresAt).run exec ω w =
      match runM ω (enforcePort req (vlan.getD 0)) w with
      | (.ok prior, w') =>
        let new := req.newAction .active prior.1 prior.2 vlan expiresAt none
        (((ω (.create new)).report w'.nextId).mapError .db,
          (exec (.create new) (ω (.create new)) w').1)
      | (.error message, w') =>
        let new := req.newAction .applyFailed none none vlan none (some message)
        (.error (.snmp message), (exec (.create new) (ω (.create new)) w').1) := by
  have hrun : (enforcePort req (vlan.getD 0)).run.run exec ω w =
      runM ω (enforcePort req (vlan.getD 0)) w := rfl
  rw [enforceAndRecord, run_bind, hrun]
  rcases runM ω (enforcePort req (vlan.getD 0)) w with ⟨message | ⟨a, p⟩, w'⟩
  · rfl
  · simp only [perform_bind, run_call]
    have hreport : ∀ new, (exec (.create new) (ω (.create new)) w').2 =
        (ω (.create new)).report w'.nextId := fun _ => rfl
    rw [hreport]
    rcases report w'.nextId _ with e | id <;> rfl

/-!
## Writes to one port

The objects of one port are its admin status, its PVID, and its own bit in each port list. Writing
them leaves every other port alone, for a port list if the list that is written is the current one
up to the bit of the port.
-/

variable {w'' : World}

/-! ### The other ports -/

/-- From `w` to `w'`, only the port with interface index `f` of the switch changed. -/
structure OthersKept (w w' : World) (switch : SwitchId) (f : ℕ) : Prop where
  switches : ∀ other ≠ switch, w'.devices other = w.devices other
  bridgePort : ∀ g, (w'.devices switch).bridgePort g = (w.devices switch).bridgePort g
  adminStatus : ∀ g ≠ f, (w'.devices switch).objects (.adminStatus g) =
    (w.devices switch).objects (.adminStatus g)
  pvid : ∀ q, (w.devices switch).bridgePort f ≠ some q →
    (w'.devices switch).objects (.pvid q) = (w.devices switch).objects (.pvid q)
  egress : ∀ vlan q, (w.devices switch).bridgePort f ≠ some q →
    (w'.devices switch).member (.egressPorts vlan) q =
      (w.devices switch).member (.egressPorts vlan) q
  untagged : ∀ vlan q, (w.devices switch).bridgePort f ≠ some q →
    (w'.devices switch).member (.untaggedPorts vlan) q =
      (w.devices switch).member (.untaggedPorts vlan) q

theorem OthersKept.refl : OthersKept w w switch f :=
  ⟨fun _ _ => rfl, fun _ => rfl, fun _ _ => rfl, fun _ _ => rfl, fun _ _ _ => rfl, fun _ _ _ => rfl⟩

variable {w}

theorem OthersKept.trans (h : OthersKept w w' switch f) (h' : OthersKept w' w'' switch f) :
    OthersKept w w'' switch f where
  switches other hne := (h'.switches other hne).trans (h.switches other hne)
  bridgePort g := (h'.bridgePort g).trans (h.bridgePort g)
  adminStatus g hne := (h'.adminStatus g hne).trans (h.adminStatus g hne)
  pvid q hq := (h'.pvid q (by rwa [h.bridgePort])).trans (h.pvid q hq)
  egress vlan q hq := (h'.egress vlan q (by rwa [h.bridgePort])).trans (h.egress vlan q hq)
  untagged vlan q hq := (h'.untagged vlan q (by rwa [h.bridgePort])).trans (h.untagged vlan q hq)

theorem OthersKept.of_devices_eq (h : w'.devices = w.devices) : OthersKept w w' switch f := by
  constructor <;> simp [h]

open Device

theorem OthersKept.port (h : OthersKept w w' switch f) {g : ℕ} (hg : g ≠ f) :
    (w'.devices switch).port g = (w.devices switch).port g := by
  have hne : ∀ q, (w.devices switch).bridgePort g = some q →
      (w.devices switch).bridgePort f ≠ some q := fun q hq hf =>
    hg (bridgePort_inj hq hf)
  unfold Device.port
  rw [h.bridgePort, h.adminStatus g hg]
  cases hq : (w.devices switch).bridgePort g with
  | none => rfl
  | some q =>
    simp [h.pvid q (hne q hq), h.egress _ q (hne q hq), h.untagged _ q (hne q hq)]

variable {value : OwnedValue}

theorem othersKept_write {oid : Oid} (hadmin : ∀ g, oid = .adminStatus g → g = f)
    (hpvid : ∀ q, oid = .pvid q → (w.devices switch).bridgePort f = some q)
    (hegress : ∀ vlan, oid = .egressPorts vlan → ∀ q, (w.devices switch).bridgePort f ≠ some q →
      ((w.devices switch).write oid value).member (.egressPorts vlan) q =
        (w.devices switch).member (.egressPorts vlan) q)
    (huntagged : ∀ vlan, oid = .untaggedPorts vlan → ∀ q, (w.devices switch).bridgePort f ≠ some q →
      ((w.devices switch).write oid value).member (.untaggedPorts vlan) q =
        (w.devices switch).member (.untaggedPorts vlan) q) :
    OthersKept w (w.write switch oid value) switch f where
  switches other hne := write_devices_of_ne _ _ _ hne
  bridgePort g := by rw [write_devices_self, write_bridgePort]
  adminStatus g hne := by
    rw [write_devices_self, write_objects_of_ne]
    exact fun h => hne (hadmin g h.symm)
  pvid q hq := by
    rw [write_devices_self, write_objects_of_ne]
    exact fun h => hq (hpvid q h.symm)
  egress vlan q hq := by
    rw [write_devices_self]
    by_cases h : oid = .egressPorts vlan
    · exact hegress vlan h q hq
    · exact member_congr (write_objects_of_ne _ _ (Ne.symm h)) q
  untagged vlan q hq := by
    rw [write_devices_self]
    by_cases h : oid = .untaggedPorts vlan
    · exact huntagged vlan h q hq
    · exact member_congr (write_objects_of_ne _ _ (Ne.symm h)) q

variable {p : ℕ}

theorem othersKept_write_portlist {column : ℕ → Oid}
    (hcolumn : column = .egressPorts ∨ column = .untaggedPorts) {vlan : ℕ} {bytes : PortList}
    {on : Bool} (hp : (w.devices switch).bridgePort f = some p)
    (hbytes : (w.devices switch).objects (column vlan) = some (.octetString bytes)) :
    OthersKept w (w.write switch (column vlan) (.octetString (portlistSet bytes p on).1))
      switch f := by
  have hmember : ∀ q, (w.devices switch).bridgePort f ≠ some q →
      ((w.devices switch).write (column vlan)
        (.octetString (portlistSet bytes p on).1)).member (column vlan) q =
        (w.devices switch).member (column vlan) q := by
    intro q hq
    have hne : q ≠ p := fun h => hq (h ▸ hp)
    rw [member_of_objects _ (write_objects_self ..), member_of_objects _ hbytes,
      contains_portlistSet bytes (bridgePort_ne_zero hp), if_neg hne]
  rcases hcolumn with rfl | rfl
  · refine othersKept_write (by simp) (by simp) (fun vlan' h q hq => ?_) (by simp)
    cases h
    exact hmember q hq
  · refine othersKept_write (by simp) (by simp) (by simp) fun vlan' h q hq => ?_
    cases h
    exact hmember q hq

theorem othersKept_adminStatus : OthersKept w (w.write switch (.adminStatus f) value) switch f :=
  othersKept_write (fun _ h => (Oid.adminStatus.inj h).symm) (by simp) (by simp) (by simp)

theorem othersKept_pvid (hp : (w.devices switch).bridgePort f = some p) :
    OthersKept w (w.write switch (.pvid p) value) switch f :=
  othersKept_write (by simp) (fun _ h => Oid.pvid.inj h ▸ hp) (by simp) (by simp)

/-! ### The port itself -/

theorem Device.port_write_adminStatus (d : Device) (value : OwnedValue) :
    (d.write (.adminStatus f) value).port f = { d.port f with adminStatus := some value } := by
  ext1
  · exact write_objects_self ..
  all_goals rfl

theorem Device.port_write_pvid (d : Device) (hp : d.bridgePort f = some p) (value : OwnedValue) :
    (d.write (.pvid p) value).port f = { d.port f with pvid := some value } := by
  simp only [port, write_bridgePort, hp, Option.bind_some, write_objects_self]
  rfl

end Abyssal.Panopticon
