import Abyssal.Panopticon.World
import Abyssal.Resumption.Interleaving

/-!
# Enforcement calls

Applying an action to a port, releasing an action, and the background sweep that releases the
actions whose timeout has expired. A call awaits each of its requests, so that other calls run
between any two of its operations. The key that decrypts the credentials is given by whether it is
configured.
-/

namespace Abyssal.Panopticon

open Resumption

abbrev Program := Prog Op Resp

abbrev SnmpM := ExceptT String Program

abbrev perform (op : Op) : Program (Resp op) := Prog.perform op

/-! ### SNMP requests -/

variable (switch : SwitchId)

def connectFor : SnmpM Unit := ExceptT.mk (perform (.connect switch))

def snmpGet (oid : Oid) : SnmpM OwnedValue :=
  ExceptT.mk (perform (.get switch oid))

def snmpSet (oid : Oid) (value : OwnedValue) : SnmpM Unit :=
  ExceptT.mk (perform (.set switch oid value))

def snmpGetInt (oid : Oid) : SnmpM ℤ := do
  match ← snmpGet switch oid with
  | .integer n => return n
  | _ => throw s!"SNMP error: {oid.parts} was expected to be an integer but wasn't"

variable (ifIndex : ℕ)

def bridgePortForIfIndex : SnmpM ℕ := do
  let rows ← ExceptT.mk (perform (.walkBasePorts switch))
  match bridgePortIn rows ifIndex with
  | some bridgePort => return bridgePort
  | none =>
    throw (s!"SNMP error: no bridge port maps to ifIndex {ifIndex} on this switch" ++
      " -- cannot locate it for VLAN ops")

def editVlanPortlist (column : ℕ → Oid) (vlan bridgePort : ℕ) (on : Bool)
    (what : String) : SnmpM Unit := do
  match ← snmpGet switch (column vlan) with
  | .octetString bytes =>
    let (bytes, changed) := portlistSet bytes bridgePort on
    if changed then
      snmpSet switch (column vlan) (.octetString bytes)
  | _ => throw s!"SNMP error: {what} for VLAN {vlan} was not a PortList octet string"

def ifAdminUp : ℤ := 1

def ifAdminDown : ℤ := 2

def enforceDisablePort : SnmpM ℤ := do
  connectFor switch
  let original ← snmpGetInt switch (.adminStatus ifIndex)
  snmpSet switch (.adminStatus ifIndex) (.integer ifAdminDown)
  return original

/-- The admin status that the revert of a disabled port sets. A port is never restored to
"down". -/
def restoredAdminStatus (restoreTo : Option ℤ) : ℤ :=
  let target := match restoreTo with
    | some s => if s = ifAdminUp ∨ s = ifAdminDown ∨ s = 3 then s else ifAdminUp
    | none => ifAdminUp
  if target = ifAdminDown then ifAdminUp else target

def revertDisablePort (restoreTo : Option ℤ) : SnmpM Unit := do
  connectFor switch
  snmpSet switch (.adminStatus ifIndex) (.integer (restoredAdminStatus restoreTo))

def enforceQuarantinePort (ifIndex quarantineVlan : ℕ) : SnmpM ℤ := do
  connectFor switch
  let bridgePort ← bridgePortForIfIndex switch ifIndex
  let originalPvid ← snmpGetInt switch (.pvid bridgePort)
  editVlanPortlist switch .egressPorts quarantineVlan bridgePort true
    "quarantine VLAN egress ports"
  editVlanPortlist switch .untaggedPorts quarantineVlan bridgePort true
    "quarantine VLAN untagged ports"
  snmpSet switch (.pvid bridgePort) (.integer quarantineVlan)
  return originalPvid

def revertQuarantinePort (restorePvid : Option ℤ) (quarantineVlan : ℕ) : SnmpM Unit := do
  connectFor switch
  let bridgePort ← bridgePortForIfIndex switch ifIndex
  match restorePvid with
  | some pvid => if 0 < pvid then snmpSet switch (.pvid bridgePort) (.integer pvid)
  | none => pure ()
  editVlanPortlist switch .untaggedPorts quarantineVlan bridgePort false
    "quarantine VLAN untagged ports (revert)"
  editVlanPortlist switch .egressPorts quarantineVlan bridgePort false
    "quarantine VLAN egress ports (revert)"

/-! ### Calls -/

structure Switch where
  id : SwitchId
  name : String
  enforcementEnabled : Bool

inductive EnforceOrigin
  | operator (id : ℕ) (username : String)
  | policy (ruleName : String)

def EnforceOrigin.createdBy : EnforceOrigin → Option ℕ
  | .operator id _ => some id
  | .policy _ => none

def EnforceOrigin.createdByUsername : EnforceOrigin → Option String
  | .operator _ username => some username
  | .policy _ => none

structure EnforceRequest where
  switch : Switch
  ifIndex : ℕ
  portLabel : String
  kind : EnforcementKind
  reason : Option String
  timeoutMinutes : ℕ
  origin : EnforceOrigin

inductive EnforceError
  | globallyDisabled
  | switchNotOptedIn
  | noEncryptionKey
  | quarantineVlanUnset
  | alreadyEnforced
  | snmp (message : String)
  | db (message : String)

variable (req : EnforceRequest)

def EnforceRequest.target : Target := ⟨req.switch.id, req.ifIndex, req.kind⟩

def EnforceRequest.newAction (state : EnforcementState)
    (originalAdminStatus originalPvid : Option ℤ) (quarantineVlan : Option ℕ)
    (expiresAt : Option ℕ) (lastError : Option String) : NewAction where
  switchId := req.switch.id
  switchName := req.switch.name
  ifIndex := req.ifIndex
  portLabel := req.portLabel
  kind := req.kind
  state := state
  originalAdminStatus := originalAdminStatus
  originalPvid := originalPvid
  quarantineVlan := quarantineVlan.map (↑)
  reason := req.reason
  createdBy := req.origin.createdBy
  createdByUsername := req.origin.createdByUsername
  expiresAt := expiresAt
  lastError := lastError

/-- The SNMP requests of an action, with the prior admin status and PVID as far as it changes them.
-/
def enforcePort (quarantineVlan : ℕ) : SnmpM (Option ℤ × Option ℤ) :=
  match req.kind with
  | .disable => do return (some (← enforceDisablePort req.switch.id req.ifIndex), none)
  | .quarantine => do
    return (none, some (← enforceQuarantinePort req.switch.id req.ifIndex quarantineVlan))

def enforceAndRecord (quarantineVlan : Option ℕ) (expiresAt : Option ℕ) :
    Program (Except EnforceError ActionId) := do
  match ← (enforcePort req (quarantineVlan.getD 0)).run with
  | .ok (originalAdminStatus, originalPvid) =>
    match ← perform (.create (req.newAction .active originalAdminStatus originalPvid
      quarantineVlan expiresAt none)) with
    | .ok id => return .ok id
    | .error e => return .error (.db e)
  | .error message =>
    let _ ← perform (.create (req.newAction .applyFailed none none quarantineVlan none
      (some message)))
    return .error (.snmp message)

def requestedVlan : Program (Except EnforceError (Option ℕ)) := do
  match req.kind with
  | .disable => return .ok none
  | .quarantine =>
    let vlan ← perform .quarantineVlan
    if vlan = 0 then return .error .quarantineVlanUnset else return .ok (some vlan)

def expiry : Program (Option ℕ) := do
  if 0 < req.timeoutMinutes then
    let now ← perform .now
    return some (now + 60 * req.timeoutMinutes)
  else return none

def apply (hasKey : Bool) (req : EnforceRequest) : Program (Except EnforceError ActionId) := do
  if !(← perform .enforcementEnabled) then
    return .error .globallyDisabled
  else if !req.switch.enforcementEnabled then
    return .error .switchNotOptedIn
  else if !hasKey then
    return .error .noEncryptionKey
  else
    match ← perform (.findInEffect req.target) with
    | .error e => return .error (.db e)
    | .ok (some _) => return .error .alreadyEnforced
    | .ok none =>
      match ← requestedVlan req with
      | .error e => return .error e
      | .ok vlan =>
        let expiresAt ← expiry req
        enforceAndRecord req vlan expiresAt

def revertPort (action : Action) : SnmpM Unit :=
  match action.kind with
  | .disable => revertDisablePort action.switchId action.ifIndex action.originalAdminStatus
  | .quarantine =>
    revertQuarantinePort action.switchId action.ifIndex action.originalPvid
      (max (action.quarantineVlan.getD 0) 0).toNat

def release (hasKey : Bool) (action : Action) : Program (Except EnforceError Unit) := do
  if !hasKey then
    let _ ← perform (.markReverted action.id .revertFailed
      (some "ENCRYPTION_KEY isn't configured; cannot reach the switch to revert"))
    return .error .noEncryptionKey
  else
    match ← perform (.findSwitch action) with
    | .error e => return .error (.db e)
    | .ok false =>
      let _ ← perform (.markReverted action.id .reverted
        (some "switch no longer exists; nothing to revert on it"))
      return .ok ()
    | .ok true =>
      match ← (revertPort action).run with
      | .ok () =>
        match ← perform (.markReverted action.id .reverted none) with
        | .ok () => return .ok ()
        | .error e => return .error (.db e)
      | .error message =>
        let _ ← perform (.markReverted action.id .revertFailed (some message))
        return .error (.snmp message)

def releaseAll (hasKey : Bool) : List Action → Program Unit
  | [] => return ()
  | action :: rest => do
    let _ ← release hasKey action
    releaseAll hasKey rest

/-- One turn of the background sweep: it lists the actions that are due and releases them in
this order. -/
def revertSweep (hasKey : Bool) : Program Unit := do
  let now ← perform .now
  match ← perform (.listDue now) with
  | .ok due => releaseAll hasKey due
  | .error _ => return ()

def enforceRelease (hasKey : Bool) (id : ActionId) : Program Unit := do
  match ← perform (.findById id) with
  | .ok (some action) => let _ ← release hasKey action
  | _ => return ()

/-! ### A small network -/

def onePortDevice : Device where
  objects
    | .adminStatus 1 => some (.integer ifAdminUp)
    | .pvid 1 => some (.integer 10)
    | .egressPorts 10 => some (.octetString [0x80])
    | .untaggedPorts 10 => some (.octetString [0x80])
    | .egressPorts 99 => some (.octetString [0])
    | .untaggedPorts 99 => some (.octetString [0])
    | _ => none
  basePorts := [(1, .integer 1)]
  nodup_basePorts := by decide
  basePorts_range := by decide

def onePortWorld : World := ⟨fun _ => onePortDevice, [], 0⟩

def portRequest (kind : EnforcementKind) : EnforceRequest where
  switch := ⟨0, "sw", true⟩
  ifIndex := 1
  portLabel := "Gi1"
  kind := kind
  reason := none
  timeoutMinutes := 0
  origin := .operator 7 "admin"

def allDone : Op → Choice
  | .enforcementEnabled => .flag true
  | .quarantineVlan => .number 99
  | _ => .done

/-!
## Concurrent enforcement calls

The pool has auxiliary parts that no program reads: which calls are in progress, when each read the
prior state of its port and first changed it, and which actions were recorded as reverted. Nothing
in the programs keeps two calls off the same port. The condition `Orderly` does, and with `lists` it
keeps two quarantines off the port lists of one switch.
-/

open Function

abbrev ThreadId := ℕ

/-! ### Calls that get in each other's way -/

def Target.SamePort (t t' : Target) : Prop := t.switch = t'.switch ∧ t.ifIndex = t'.ifIndex
  deriving Decidable

/-- Calls on the same port conflict, and with `lists` also two quarantines on one switch. -/
def Target.Conflicts (lists : Bool) (t t' : Target) : Prop :=
  t.switch = t'.switch ∧
    (t.ifIndex = t'.ifIndex ∨ lists = true ∧ t.kind = .quarantine ∧ t'.kind = .quarantine)
  deriving Decidable

/-- A call in progress: what it works on, and the action that it releases if it is a release. -/
structure Call where
  target : Target
  action : Option ActionId

/-! ### The state of the pool -/

/-- The switches and the table, and the calls in progress. `step` counts; recorded are the steps at
which a call read the prior state of its port and first changed it, by thread and by action, and the
actions that were reverted, and reverted again. -/
structure Net where
  world : World
  calls : List (ThreadId × Call)
  clock : ℕ
  readAt : ThreadId → Option ℕ
  changedAt : ThreadId → Option ℕ
  origin : ActionId → Option (Option ℕ × Option ℕ)
  reverted : List ActionId
  late : List ActionId

namespace Net

def new (w : World) : Net where
  world := w
  calls := []
  clock := 0
  readAt _ := none
  changedAt _ := none
  origin _ := none
  reverted := []
  late := []

variable (s : Net) (i : ThreadId)

def IsOut : Prop := ∀ e ∈ s.calls, e.1 ≠ i
  deriving Decidable

def enter (call : Call) : Net :=
  { s with
    calls := (i, call) :: s.calls.filter fun e => e.1 ≠ i
    readAt := update s.readAt i none
    changedAt := update s.changedAt i none }

def leave : Net := { s with calls := s.calls.filter fun e => e.1 ≠ i }

def lateOf : List ActionId :=
  s.calls.filterMap fun e => if e.1 = i then e.2.action.filter (· ∈ s.reverted) else none

end Net

def Oid.isPrior : Oid → Bool
  | .adminStatus _ => true
  | .pvid _ => true
  | _ => false

def Net.track (i : ThreadId) : (op : Op) → Choice → Resp op → Net → Net
  | .findInEffect target, _, .ok none, s => s.enter i ⟨target, none⟩
  | .quarantineVlan, _, vlan, s => if vlan = 0 then s.leave i else s
  | .findSwitch action, _, .ok _, s => s.enter i ⟨action.target, some action.id⟩
  | .create _, c, _, s =>
    { s.leave i with
      origin := if c.takes then
          update s.origin s.world.nextId (some (s.readAt i, s.changedAt i))
        else s.origin }
  | .markReverted id state _, _, _, s =>
    { s.leave i with
      reverted := if state = .reverted then id :: s.reverted else s.reverted }
  | .get _ oid, _, _, s =>
    if oid.isPrior then { s with readAt := update s.readAt i (some s.clock) } else s
  | .set _ _ _, c, _, s =>
    if c.takes then
      { s with
        changedAt := update s.changedAt i (some ((s.changedAt i).getD s.clock))
        late := s.lateOf i ++ s.late }
    else s
  | _, _, _, s => s

def Net.exec (i : ThreadId) (op : Op) (c : Choice) (s : Net) : Option (Net × Resp op) :=
  let out := Panopticon.exec op c s.world
  some ({ s.track i op c out.2 with world := out.1, clock := s.clock + 1 }, out.2)

/-! ### Runs -/

inductive Job
  | apply (req : EnforceRequest)
  | release (id : ActionId)
  | sweep

def code (hasKey : Bool) : Job → Program Unit
  | .apply req => do let _ ← apply hasKey req
  | .release id => enforceRelease hasKey id
  | .sweep => revertSweep hasKey

def World.InEffect (w : World) (id : ActionId) : Prop :=
  ∃ a ∈ w.actions, a.id = id ∧ a.state.isInEffect = true
  deriving Decidable

def Net.Free (s : Net) (lists : Bool) (i : ThreadId) (t : Target) : Prop :=
  ∀ e ∈ s.calls, e.1 ≠ i → ¬ t.Conflicts lists e.2.target
  deriving Decidable

/-- Calls start only while none gets in their way, releases only while their action is in effect.
With `lists`, the updates of the actions take effect. -/
def Orderly (lists : Bool) (i : ThreadId) : (op : Op) → Choice → Net → Prop
  | .findInEffect target, _, s =>
    s.world.findInEffect target.switch target.ifIndex = none → s.Free lists i target
  | .findSwitch action, _, s => s.world.InEffect action.id ∧ s.Free lists i action.target
  | .markReverted id _ _, c, s =>
    (lists = true → c.takes = true) ∧ (s.IsOut i → s.world.InEffect id)
  | _, _, _ => True

instance (lists : Bool) (i : ThreadId) (op : Op) (c : Choice) (s : Net) :
    Decidable (Orderly lists i op c s) :=
  match op with
  | .findInEffect target => inferInstanceAs (Decidable
      (s.world.findInEffect target.switch target.ifIndex = none → s.Free lists i target))
  | .findSwitch action => inferInstanceAs (Decidable
      (s.world.InEffect action.id ∧ s.Free lists i action.target))
  | .markReverted id _ _ => inferInstanceAs (Decidable
      ((lists = true → c.takes = true) ∧ (s.IsOut i → s.world.InEffect id)))
  | .enforcementEnabled | .quarantineVlan | .now | .findById _ | .listDue _ | .create _
  | .connect _ | .walkBasePorts _ | .get _ _ | .set _ _ _ => inferInstanceAs (Decidable True)

abbrev CallPool := Pool ThreadId Job Net Op Resp Unit

/-- The pools that runs of calls reach from a given network by steps that satisfy `ok`. -/
def Reaches (hasKey : Bool) (ok : ThreadId → Op → Choice → Net → Prop) (w : World)
    (P : CallPool) : Prop :=
  Reach (code hasKey) Net.exec ok (.init (.new w)) P

end Abyssal.Panopticon
