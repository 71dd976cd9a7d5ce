import Abyssal.Panopticon.CallRuns

/-!
# What an enforcement call leaves behind

An enforcement call writes to the switch one to three times and then records the action. If a later
request or the record fails, the writes before it stay, and no action can undo them. An `Edit` says
whether a write changes the port, and whether the call goes on after it.

## Main results

* `changeRecorded_iff`: when every change has a record.
-/

namespace Abyssal.Panopticon

open List Option Choice World Bool

variable {ω : Op → Choice} {w : World} {switch : SwitchId}

/-! ### The writes of a call -/

/-- A request to the switch: whether it changes the port, and whether the call goes on. -/
structure Edit where
  changes : Bool
  passes : Bool

namespace Edit

/-- A request that fails before it reaches the switch. -/
def refused : Edit := ⟨false, false⟩

/-- Some request that the call comes to changes the port. -/
def anyChanges : List Edit → Bool
  | [] => false
  | e :: es => e.changes || (e.passes && anyChanges es)

def allPass : List Edit → Bool
  | [] => true
  | e :: es => e.passes && allPass es

end Edit

def portsEdit (ω : Op → Choice) (w : World) (switch : SwitchId) (oid : Oid) (bridgePort : ℕ) :
    Edit :=
  match readPorts ω w switch oid with
  | none => .refused
  | some bytes =>
    if bytes.contains bridgePort then ⟨false, true⟩
    else
      let c := ω (.set switch oid (.octetString (portlistSet bytes bridgePort true).1))
      ⟨c.takes, c.acks⟩

def valueEdit (ω : Op → Choice) (w : World) (switch : SwitchId) (oid : Oid) (value : OwnedValue) :
    Edit :=
  let c := ω (.set switch oid value)
  ⟨c.takes && (w.devices switch).objects oid ≠ some value, c.acks⟩

def priorState (ω : Op → Choice) (w : World) (req : EnforceRequest) : Option ℤ × Option ℤ :=
  match req.kind with
  | .disable => (readInt ω w req.switch.id (.adminStatus req.ifIndex), none)
  | .quarantine => (none, (readBridgePort ω w req.switch.id req.ifIndex).bind fun p =>
      readInt ω w req.switch.id (.pvid p))

/-- The writes of a call, once the switch was reached and the prior state was read. -/
def edits (ω : Op → Choice) (w : World) (req : EnforceRequest) (vlan : ℕ) : List Edit :=
  if (ω (.connect req.switch.id)).acks then
    match req.kind with
    | .disable =>
      match readInt ω w req.switch.id (.adminStatus req.ifIndex) with
      | none => [.refused]
      | some _ => [valueEdit ω w req.switch.id (.adminStatus req.ifIndex) (.integer ifAdminDown)]
    | .quarantine =>
      match readBridgePort ω w req.switch.id req.ifIndex with
      | none => [.refused]
      | some p =>
        match readInt ω w req.switch.id (.pvid p) with
        | none => [.refused]
        | some _ => [portsEdit ω w req.switch.id (.egressPorts vlan) p,
            portsEdit ω w req.switch.id (.untaggedPorts vlan) p,
            valueEdit ω w req.switch.id (.pvid p) (.integer vlan)]
  else [.refused]

def writeIf (b : Bool) (switch : SwitchId) (oid : Oid) (value : OwnedValue) (w : World) : World :=
  if b then w.write switch oid value else w

theorem writeIf_actions (b : Bool) (oid : Oid) (value : OwnedValue) :
    (writeIf b switch oid value w).actions = w.actions := by
  cases b <;> rfl

open Device

variable {oid oid' : Oid}

theorem writeIf_objects_of_ne (b : Bool) (value : OwnedValue) (h : oid' ≠ oid) :
    ((writeIf b switch oid value w).devices switch).objects oid' =
      (w.devices switch).objects oid' := by
  cases b with
  | false => rfl
  | true =>
    change ((w.write switch oid value).devices switch).objects oid' = _
    rw [write_devices_self, write_objects_of_ne _ _ h]

theorem writeIf_objects_self (b : Bool) (oid : Oid) (value : OwnedValue) :
    ((writeIf b switch oid value w).devices switch).objects oid =
      if b then some value else (w.devices switch).objects oid := by
  cases b with
  | false => rfl
  | true =>
    change ((w.write switch oid value).devices switch).objects oid = _
    rw [write_devices_self, write_objects_self]
    rfl

theorem writeIf_bridgePort (b : Bool) (oid : Oid) (value : OwnedValue) (f : ℕ) :
    ((writeIf b switch oid value w).devices switch).bridgePort f =
      (w.devices switch).bridgePort f := by
  cases b with
  | false => rfl
  | true =>
    change ((w.write switch oid value).devices switch).bridgePort f = _
    rw [write_devices_self, write_bridgePort]

def Answers {α : Type} (passes : Bool) (a : α) (r : Except String α) : Prop :=
  if passes then r = .ok a else ∃ message, r = .error message

variable {α : Type}

theorem answers_report (c : Choice) (a : α) : Answers c.acks a (c.report a) := by
  unfold Answers
  split_ifs with hacks
  · exact report_of_acks hacks
  · exact report_of_not_acks (by simpa using hacks)

theorem World.write_eq_self {value : OwnedValue}
    (h : (w.devices switch).objects oid = some value) : w.write switch oid value = w := by
  have hdev : (w.devices switch).write oid value = w.devices switch := by
    rw [Device.write, ← h, Function.update_eq_self]
  rw [write, hdev, Function.update_eq_self]

open Edit

variable {p : ℕ}

theorem runM_portsEdit (ω : Op → Choice) (w : World) (switch : SwitchId) (column : ℕ → Oid)
    (vlan : ℕ) (hp : p ≠ 0) (what : String) :
    ∃ r bytes, runM ω (editVlanPortlist switch column vlan p true what) w =
        (r, writeIf (portsEdit ω w switch (column vlan) p).changes switch (column vlan)
          (.octetString bytes) w) ∧
      Answers (portsEdit ω w switch (column vlan) p).passes () r ∧
      PortList.contains bytes p ∧
      ((portsEdit ω w switch (column vlan) p).changes →
        (w.devices switch).member (column vlan) p = false) := by
  obtain ⟨e, hrun⟩ := runM_editVlanPortlist ω w switch column vlan hp true what
  rw [hrun]
  unfold portsEdit
  cases hread : readPorts ω w switch (column vlan) with
  | none =>
    refine ⟨_, (portlistSet [] p true).1, rfl, ⟨e, rfl⟩, ?_, by simp [refused]⟩
    rw [contains_portlistSet [] hp, if_pos rfl]
  | some bytes =>
    have hcontains : (portlistSet bytes p true).1.contains p := by
      rw [contains_portlistSet bytes hp, if_pos rfl]
    by_cases hmem : bytes.contains p
    · simp only [hmem, ↓reduceIte]
      exact ⟨_, (portlistSet bytes p true).1, rfl, rfl, hcontains, by simp⟩
    · simp only [hmem, false_eq_true, ↓reduceIte, runM_snmpSet]
      refine ⟨_, (portlistSet bytes p true).1, rfl, answers_report _ _, hcontains, fun _ => ?_⟩
      rw [member_of_objects _ (objects_of_readPorts hread)]
      simpa using hmem

theorem runM_valueEdit (ω : Op → Choice) (w : World) (switch : SwitchId) (oid : Oid)
    (value : OwnedValue) :
    runM ω (snmpSet switch oid value) w = ((ω (.set switch oid value)).report (),
      writeIf (valueEdit ω w switch oid value).changes switch oid value w) := by
  rw [runM_snmpSet]
  unfold valueEdit writeIf
  by_cases hsame : (w.devices switch).objects oid = some value
  · simp [hsame, write_eq_self hsame]
  · simp [hsame]

section Elsewhere

variable {w₁ : World} {b : Bool} {value value' : OwnedValue}

theorem portsEdit_of_eq (oid' : Oid) (hw : w₁ = writeIf b switch oid value w) (h : oid' ≠ oid) :
    portsEdit ω w₁ switch oid' p = portsEdit ω w switch oid' p := by
  simp [hw, portsEdit, readPorts, writeIf_objects_of_ne b value h]

theorem valueEdit_of_eq (oid' : Oid) (hw : w₁ = writeIf b switch oid value w) (h : oid' ≠ oid) :
    valueEdit ω w₁ switch oid' value' = valueEdit ω w switch oid' value' := by
  simp [hw, valueEdit, writeIf_objects_of_ne b value h]

end Elsewhere

theorem objects_of_valueEdit {value : OwnedValue} (h : (valueEdit ω w switch oid value).changes) :
    (w.devices switch).objects oid ≠ some value := by
  simp only [valueEdit, and_eq_true, decide_eq_true_eq] at h
  exact h.2

variable {f vlan : ℕ}

structure Outcome (w : World) (switch : SwitchId) (f : ℕ) {α : Type} (es : List Edit) (a : α)
    (result : Except String α × World) : Prop where
  actions : result.2.actions = w.actions
  answer : Answers (Edit.allPass es) a result.1
  unchanged : (result.2.devices switch).port f = (w.devices switch).port f ↔
    Edit.anyChanges es = false

variable {β : Type} {x : SnmpM α}

theorem outcome_of_error (b : β) {g : α → SnmpM β}
    {message : String} (h : runM ω x w = (.error message, w)) :
    Outcome w switch f [.refused] b (runM ω (x >>= g) w) := by
  rw [runM_bind_error h]
  exact ⟨rfl, ⟨message, rfl⟩, by simp [anyChanges, refused]⟩

variable {es : List Edit} {a : α}

theorem Answers.map {passes : Bool} {r : Except String α} (g : α → β) (h : Answers passes a r) :
    Answers passes (g a) (r.map g) := by
  cases passes with
  | true => exact congrArg (Except.map g) (show r = .ok a from h)
  | false =>
    obtain ⟨message, hmessage⟩ : ∃ message, r = .error message := h
    exact ⟨message, congrArg (Except.map g) hmessage⟩

theorem Outcome.map {w₀ : World} (g : α → β) (h : Outcome w switch f es a (runM ω x w₀)) :
    Outcome w switch f es (g a) (runM ω (x >>= fun y => pure (g y)) w₀) := by
  have hrun : runM ω (x >>= fun y => pure (g y)) w₀ =
      ((runM ω x w₀).1.map g, (runM ω x w₀).2) := by
    rw [runM_bind]
    rcases runM ω x w₀ with ⟨_ | _, _⟩ <;> rfl
  rw [hrun]
  exact ⟨h.actions, h.answer.map g, h.unchanged⟩

variable {passes : Bool} {r : Except String α}

theorem Answers.ok_of_passes (h : Answers passes a r) (hpass : passes) : r = .ok a := by
  rwa [Answers, if_pos hpass] at h

theorem Answers.error_of_not_passes
    (h : Answers passes a r) (hpass : passes = false) : ∃ message, r = .error message := by
  rwa [Answers, if_neg (eq_false_iff.mp hpass)] at h

/-- An outcome of requests that changed no objects of the switch but these. -/
structure Traced (w : World) (switch : SwitchId) (f : ℕ) (oids : List Oid) (es : List Edit) (a : α)
    (result : Except String α × World) : Prop extends Outcome w switch f es a result where
  kept : ∀ oid ∉ oids, (result.2.devices switch).objects oid = (w.devices switch).objects oid
  bridgePort : (result.2.devices switch).bridgePort f = (w.devices switch).bridgePort f

theorem Traced.pure (a : α) : Traced w switch f [] [] a (runM ω (pure a) w) :=
  ⟨⟨rfl, rfl, iff_of_true rfl rfl⟩, fun _ _ => rfl, rfl⟩

/-- A request in front of others, which write elsewhere: if it changes the port, the port stays
changed. -/
theorem Traced.cons {x : SnmpM Unit} {k : Unit → SnmpM α} {r : Except String Unit} {e : Edit}
    {value : OwnedValue} {oids : List Oid}
    (hx : runM ω x w = (r, writeIf e.changes switch oid value w)) (hanswer : Answers e.passes () r)
    (hoid : oid ∉ oids)
    (hdiff : e.changes → ∀ w' : World, (w'.devices switch).objects oid = some value →
      (w'.devices switch).bridgePort f = (w.devices switch).bridgePort f →
      (w'.devices switch).port f ≠ (w.devices switch).port f)
    (hk : ∀ w₁, w₁ = writeIf e.changes switch oid value w →
      Traced w₁ switch f oids es a (runM ω (k ()) w₁)) :
    Traced w switch f (oid :: oids) (e :: es) a (runM ω (x >>= k) w) := by
  have hk := hk _ rfl
  have hport : ∀ {w' : World} {changed : Bool},
      (w'.devices switch).objects oid =
        ((writeIf e.changes switch oid value w).devices switch).objects oid →
      (w'.devices switch).bridgePort f = (w.devices switch).bridgePort f →
      ((w'.devices switch).port f = ((writeIf e.changes switch oid value w).devices switch).port f ↔
        changed = false) →
      ((w'.devices switch).port f = (w.devices switch).port f ↔
        (e.changes || changed) = false) := by
    intro w' changed hobj hbridge hrest
    cases hchanges : e.changes with
    | false =>
      rw [hchanges] at hrest
      exact hrest
    | true =>
      rw [hchanges, writeIf_objects_self, if_pos rfl] at hobj
      exact iff_of_false (hdiff hchanges w' hobj hbridge) nofun
  cases hpass : e.passes with
  | false =>
    obtain ⟨message, rfl⟩ := hanswer.error_of_not_passes hpass
    rw [runM_bind_error hx]
    refine ⟨⟨writeIf_actions .., by simp [Answers, allPass, hpass], ?_⟩, fun oid' h => ?_,
      writeIf_bridgePort ..⟩
    · simpa [anyChanges, hpass] using hport rfl (writeIf_bridgePort ..) (iff_of_true rfl rfl)
    · exact writeIf_objects_of_ne _ _ (ne_of_not_mem_cons h)
  | true =>
    rw [hanswer.ok_of_passes hpass] at hx
    rw [runM_bind_ok hx]
    have hbridge := hk.bridgePort.trans (writeIf_bridgePort ..)
    refine ⟨⟨hk.actions.trans (writeIf_actions ..), by simpa [allPass, hpass] using hk.answer, ?_⟩,
      fun oid' h => ?_, hbridge⟩
    · simpa [anyChanges, hpass] using hport (hk.kept oid hoid) hbridge hk.unchanged
    · exact (hk.kept oid' (not_mem_of_not_mem_cons h)).trans
        (writeIf_objects_of_ne _ _ (ne_of_not_mem_cons h))

variable {n : ℤ}

variable (ω)

theorem outcome_enforceDisablePort (w : World) (switch : SwitchId) (f : ℕ)
    (hconnect : (ω (.connect switch)).acks) (hread : readInt ω w switch (.adminStatus f) = some n) :
    Outcome w switch f [valueEdit ω w switch (.adminStatus f) (.integer ifAdminDown)] n
      (runM ω (enforceDisablePort switch f) w) := by
  obtain ⟨_, hget⟩ := runM_snmpGetInt ω w switch (.adminStatus f)
  rw [hread] at hget
  have hconn : runM ω (connectFor switch) w = (.ok (), w) := by
    rw [runM_connectFor, report_of_acks hconnect]
  rw [enforceDisablePort, runM_bind_ok hconn, runM_bind_ok hget]
  refine (Traced.cons (runM_valueEdit ..) (answers_report _ _) not_mem_nil
    (fun hchanges _ hobj _ heq => objects_of_valueEdit hchanges ?_) fun _ _ => .pure n).toOutcome
  exact (congrArg PortState.adminStatus heq).symm.trans hobj

private theorem outcome_enforceQuarantinePort (w : World) (switch : SwitchId)
    (f vlan : ℕ) (hconnect : (ω (.connect switch)).acks)
    (hport : readBridgePort ω w switch f = some p) (hread : readInt ω w switch (.pvid p) = some n) :
    Outcome w switch f [portsEdit ω w switch (.egressPorts vlan) p,
        portsEdit ω w switch (.untaggedPorts vlan) p,
        valueEdit ω w switch (.pvid p) (.integer vlan)] n
      (runM ω (enforceQuarantinePort switch f vlan) w) := by
  have hp : (w.devices switch).bridgePort f = some p := by
    unfold readBridgePort at hport
    split_ifs at hport
    exact hport
  have hp0 := bridgePort_ne_zero hp
  have hconn : runM ω (connectFor switch) w = (.ok (), w) := by
    rw [runM_connectFor, report_of_acks hconnect]
  obtain ⟨_, hwalk⟩ := runM_bridgePortForIfIndex ω w switch f
  rw [hport] at hwalk
  obtain ⟨_, hget⟩ := runM_snmpGetInt ω w switch (.pvid p)
  rw [hread] at hget
  rw [enforceQuarantinePort, runM_bind_ok hconn, runM_bind_ok hwalk, runM_bind_ok hget]
  obtain ⟨_, egress, hrun, hanswer, hmem, hold⟩ :=
    runM_portsEdit ω w switch .egressPorts vlan hp0 "quarantine VLAN egress ports"
  suffices h : Traced w switch f [.egressPorts vlan, .untaggedPorts vlan, .pvid p] _ n _ from
    h.toOutcome
  refine .cons hrun hanswer (by simp) (fun hchanges w' hobj hbridge heq => ?_) fun w₁ hw₁ => ?_
  · have hegress := congrFun (congrArg PortState.egress heq) vlan
    simp only [port, hbridge, hp, any_some] at hegress
    rw [hold hchanges, member_of_objects _ hobj, hmem] at hegress
    cases hegress
  have hp := (hw₁ ▸ writeIf_bridgePort _ _ _ f : (w₁.devices switch).bridgePort f = _).trans hp
  rw [← portsEdit_of_eq (.untaggedPorts vlan) hw₁ (by simp),
    ← valueEdit_of_eq (.pvid p) hw₁ (by simp)]
  obtain ⟨_, untagged, hrun, hanswer, hmem, hold⟩ :=
    runM_portsEdit ω w₁ switch .untaggedPorts vlan hp0 "quarantine VLAN untagged ports"
  refine .cons hrun hanswer (by simp) (fun hchanges w' hobj hbridge heq => ?_) fun w₂ hw₂ => ?_
  · have huntagged := congrFun (congrArg PortState.untagged heq) vlan
    simp only [port, hbridge, hp, any_some] at huntagged
    rw [hold hchanges, member_of_objects _ hobj, hmem] at huntagged
    cases huntagged
  rw [← valueEdit_of_eq (.pvid p) hw₂ (by simp)]
  refine Traced.cons (runM_valueEdit ..) (answers_report _ _) not_mem_nil
    (fun hchanges w' hobj hbridge heq => objects_of_valueEdit hchanges ?_) fun _ _ => .pure n
  have hpvid := congrArg PortState.pvid heq
  simp only [port, hbridge, hw₂, writeIf_bridgePort, hp, bind_some] at hpvid
  rw [hw₂, ← hpvid, hobj]

theorem outcome_enforcePort (w : World) (req : EnforceRequest) (vlan : ℕ) :
    Outcome w req.switch.id req.ifIndex (edits ω w req vlan) (priorState ω w req)
      (runM ω (enforcePort req vlan) w) := by
  unfold edits priorState enforcePort
  by_cases hconnect : (ω (.connect req.switch.id)).acks
  · have hconn : runM ω (connectFor req.switch.id) w = (.ok (), w) := by
      rw [runM_connectFor, report_of_acks hconnect]
    rw [if_pos hconnect]
    cases req.kind with
    | disable =>
      cases hread : readInt ω w req.switch.id (.adminStatus req.ifIndex) with
      | none =>
        obtain ⟨e, hget⟩ := runM_snmpGetInt ω w req.switch.id (.adminStatus req.ifIndex)
        rw [hread] at hget
        apply outcome_of_error
        rw [enforceDisablePort, runM_bind_ok hconn, runM_bind_error hget]
      | some n =>
        exact (outcome_enforceDisablePort ω w _ _ hconnect hread).map fun n => (some n, none)
    | quarantine =>
      obtain ⟨e, hwalk⟩ := runM_bridgePortForIfIndex ω w req.switch.id req.ifIndex
      cases hport : readBridgePort ω w req.switch.id req.ifIndex with
      | none =>
        rw [hport] at hwalk
        apply outcome_of_error
        rw [enforceQuarantinePort, runM_bind_ok hconn, runM_bind_error hwalk]
      | some p =>
        rw [hport] at hwalk
        simp only [bind_some]
        cases hread : readInt ω w req.switch.id (.pvid p) with
        | none =>
          obtain ⟨e, hget⟩ := runM_snmpGetInt ω w req.switch.id (.pvid p)
          rw [hread] at hget
          apply outcome_of_error
          rw [enforceQuarantinePort, runM_bind_ok hconn, runM_bind_ok hwalk, runM_bind_error hget]
        | some n =>
          exact (outcome_enforceQuarantinePort ω w _ _ vlan hconnect hport hread).map
            fun n => (none, some n)
  · obtain ⟨e, hmessage⟩ := report_of_not_acks (a := ()) (eq_false_iff.mpr hconnect)
    have hconn : runM ω (connectFor req.switch.id) w = (.error e, w) := by
      rw [runM_connectFor, hmessage]
    rw [if_neg hconnect]
    cases req.kind with
    | disable =>
      apply outcome_of_error
      rw [enforceDisablePort, runM_bind_error hconn]
    | quarantine =>
      apply outcome_of_error
      rw [enforceQuarantinePort, runM_bind_error hconn]

/-! ### The call -/

def activeRow (w : World) (req : EnforceRequest) : NewAction :=
  req.newAction .active (priorState ω w req).1 (priorState ω w req).2 (vlanOf ω req)
    (expiryOf ω req) none

/-- The port is in neither list of the VLAN. -/
def PortState.Outside (s : PortState) (vlan : ℕ) : Prop :=
  s.egress vlan = false ∧ s.untagged vlan = false

/-- The action carries the prior state of the port it changed. It has no field for the lists of the
quarantine VLAN, so that the port must have been in neither. -/
def NewAction.CarriesPrior (a : NewAction) (d : Device) : Prop :=
  match a.kind with
  | .disable => ∃ n, a.originalAdminStatus = some n ∧
      (d.port a.ifIndex).adminStatus = some (.integer n)
  | .quarantine => (∃ n, a.originalPvid = some n ∧ (d.port a.ifIndex).pvid = some (.integer n)) ∧
      ∀ vlan : ℕ, a.quarantineVlan = some ↑vlan → (d.port a.ifIndex).Outside vlan

/-- If the port differs after the call, an action in effect carries the prior state; and a failed
action changed nothing. -/
structure ChangeRecorded (w : World) (hasKey : Bool) (req : EnforceRequest) : Prop where
  undoable : (((apply hasKey req).run exec ω w).2.devices req.switch.id).port req.ifIndex ≠
      (w.devices req.switch.id).port req.ifIndex →
    ∃ a ∈ ((apply hasKey req).run exec ω w).2.actions,
      a.inEffectOn req.switch.id req.ifIndex = true ∧ a.CarriesPrior (w.devices req.switch.id)
  applyFailed : ∀ a, ((apply hasKey req).run exec ω w).2.actions = a :: w.actions →
    a.state = .applyFailed →
    (((apply hasKey req).run exec ω w).2.devices req.switch.id).port req.ifIndex =
      (w.devices req.switch.id).port req.ifIndex

variable {req : EnforceRequest}

variable {ω}

theorem carriesPrior_activeRow (h : allPass (edits ω w req vlan)) :
    (activeRow ω w req).CarriesPrior (w.devices req.switch.id) ↔
      ∀ vlan, vlanOf ω req = some vlan →
        ((w.devices req.switch.id).port req.ifIndex).Outside vlan := by
  unfold edits at h
  split_ifs at h with hconnect
  swap
  · simp [allPass, refused] at h
  unfold NewAction.CarriesPrior activeRow EnforceRequest.newAction priorState vlanOf
  cases hkind : req.kind with
  | disable =>
    simp only [hkind] at h ⊢
    cases hread : readInt ω w req.switch.id (.adminStatus req.ifIndex) with
    | none => simp [hread, allPass, refused] at h
    | some n => exact iff_of_true ⟨n, rfl, objects_of_readInt hread⟩ nofun
  | quarantine =>
    simp only [hkind] at h ⊢
    cases hport : readBridgePort ω w req.switch.id req.ifIndex with
    | none => simp [hport, allPass, refused] at h
    | some p =>
      cases hread : readInt ω w req.switch.id (.pvid p) with
      | none => simp [hport, hread, allPass, refused] at h
      | some n =>
        have hpvid : ((w.devices req.switch.id).port req.ifIndex).pvid = some (.integer n) := by
          unfold readBridgePort at hport
          split_ifs at hport
          simp [port, hport, objects_of_readInt hread]
        simp [hread, hpvid]

private theorem findInEffect_eq_none (h : w.findInEffect switch f = none) {a : Action}
    (ha : a ∈ w.actions) : a.inEffectOn switch f = false := by
  simpa using find?_eq_none.mp h a ha

private theorem changeRecorded_iff_of_no_action {hasKey : Bool}
    (hport : (((apply hasKey req).run exec ω w).2.devices req.switch.id).port req.ifIndex =
      (w.devices req.switch.id).port req.ifIndex ↔ anyChanges es = false)
    (hno : ∀ a ∈ ((apply hasKey req).run exec ω w).2.actions,
      a.inEffectOn req.switch.id req.ifIndex = false) :
    ChangeRecorded ω w hasKey req ↔ anyChanges es = false := by
  refine ⟨fun h => hport.mp ?_, fun h => ⟨fun hne => absurd (hport.mpr h) hne, fun _ _ _ => ?_⟩⟩
  · by_contra hne
    obtain ⟨a, ha, heffect, -⟩ := h.undoable hne
    cases heffect.symm.trans (hno a ha)
  · exact hport.mpr h

/-- A change of the port is recorded exactly if no write that the call comes to changes the port, or
the call completes, on a port that was not in the quarantine VLAN. -/
theorem changeRecorded_iff (ω : Op → Choice) (w : World) (hasKey : Bool) (req : EnforceRequest) :
    ChangeRecorded ω w hasKey req ↔ (Admitted ω w hasKey req →
      Edit.anyChanges (edits ω w req ((vlanOf ω req).getD 0)) →
      Edit.allPass (edits ω w req ((vlanOf ω req).getD 0)) ∧
        (ω (.create (activeRow ω w req))).takes ∧
        ∀ vlan, vlanOf ω req = some vlan →
          ((w.devices req.switch.id).port req.ifIndex).Outside vlan) := by
  obtain ⟨hadm, hrecord⟩ | ⟨hadm, e, he⟩ := run_apply ω w hasKey req
  swap
  · refine ⟨fun _ h => absurd h hadm, fun _ => ⟨fun hne => ?_, fun _ _ _ => ?_⟩⟩
    · rw [he] at hne
      exact absurd rfl hne
    · rw [he]
  have hnone := hadm.2.2.2.2.1
  obtain ⟨hacts, hans, hport⟩ := outcome_enforcePort ω w req ((vlanOf ω req).getD 0)
  have hfinal := congrArg Prod.snd
    (run_enforceAndRecord ω w req (vlanOf ω req) (expiryOf ω req))
  rw [← hrecord] at hfinal
  set es := edits ω w req ((vlanOf ω req).getD 0) with hes
  rcases hrun : runM ω (enforcePort req ((vlanOf ω req).getD 0)) w with ⟨r, w'⟩
  rw [hrun] at hacts hans hport hfinal
  cases hpass : allPass es with
  | true =>
    obtain rfl := hans.ok_of_passes hpass
    cases htakes : (ω (.create (activeRow ω w req))).takes with
    | true =>
      have hw : _ = w'.insert (activeRow ω w req) := hfinal.trans (if_pos htakes)
      have hprior := carriesPrior_activeRow (hes ▸ hpass)
      have hport : (((apply hasKey req).run exec ω w).2.devices req.switch.id).port req.ifIndex =
          (w.devices req.switch.id).port req.ifIndex ↔ anyChanges es = false := hw ▸ hport
      refine ⟨fun h _ hchanges => ⟨rfl, rfl, hprior.1 ?_⟩, fun h => ⟨fun hne => ?_, ?_⟩⟩
      · obtain ⟨a, ha, heffect, hcarries⟩ :=
          h.undoable fun heq => nomatch hchanges.symm.trans (hport.mp heq)
        rw [hw] at ha
        rcases mem_cons.mp ha with rfl | ha
        · exact hcarries
        · cases heffect.symm.trans (findInEffect_eq_none hnone (hacts ▸ ha))
      · have hchanges := (not_eq_false _).mp (mt hport.mpr hne)
        refine ⟨⟨activeRow ω w req, w'.nextId⟩, ?_, ?_, hprior.2 (h hadm hchanges).2.2⟩
        · rw [hw]
          exact mem_cons_self
        · simp [Action.inEffectOn, activeRow, EnforceRequest.newAction, EnforcementState.isInEffect]
      · intro a ha hstate
        rw [hw] at ha
        obtain ⟨rfl, -⟩ := cons.inj ha
        cases hstate
    | false =>
      have hw := hfinal.trans (if_neg (eq_false_iff.mp htakes))
      rw [changeRecorded_iff_of_no_action (hw ▸ hport) fun a ha => ?_]
      · simp [hadm]
      · rw [hw, hacts] at ha
        exact findInEffect_eq_none hnone ha
  | false =>
    obtain ⟨message, rfl⟩ := hans.error_of_not_passes hpass
    set failedRow := req.newAction .applyFailed none none (vlanOf ω req) none (some message)
    have hw : ((apply hasKey req).run exec ω w).2 =
        if (ω (.create failedRow)).takes then w'.insert failedRow else w' := hfinal
    have hdev : ((apply hasKey req).run exec ω w).2.devices = w'.devices := by
      rw [hw]
      split_ifs <;> rfl
    rw [changeRecorded_iff_of_no_action (hdev ▸ hport) fun a ha => ?_]
    · simp [hadm]
    · have hold : ∀ a ∈ w'.actions, a.inEffectOn req.switch.id req.ifIndex = false :=
        fun a ha => findInEffect_eq_none hnone (hacts ▸ ha)
      rw [hw] at ha
      split_ifs at ha
      · rcases mem_cons.mp ha with rfl | ha
        · simp [Action.inEffectOn, failedRow, EnforceRequest.newAction, EnforcementState.isInEffect]
        · exact hold a ha
      · exact hold a ha

/-- A quarantine whose second write the switch rejects leaves the port in the quarantine VLAN, and
no action in effect. -/
theorem not_changeRecorded : ¬ ∀ ω w hasKey req, ChangeRecorded ω w hasKey req := by
  intro h
  let ω : Op → Choice
    | .set _ (.untaggedPorts _) _ => .failed "SNMP error: switch rejected SET"
    | op => allDone op
  have hno : ∀ a ∈ ((apply true (portRequest .quarantine)).run exec ω onePortWorld).2.actions,
      a.inEffectOn 0 1 = false := by decide
  have hchanged : (((apply true (portRequest .quarantine)).run exec ω onePortWorld).2.devices
      0).port 1 ≠ (onePortWorld.devices 0).port 1 := fun heq =>
    absurd (congrFun (congrArg PortState.egress heq) 99) (by decide)
  obtain ⟨a, ha, heffect, -⟩ := (h ω onePortWorld true (portRequest .quarantine)).undoable hchanged
  cases heffect.symm.trans (hno a ha)

end Abyssal.Panopticon
