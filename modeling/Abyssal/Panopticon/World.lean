import Abyssal.Panopticon.PortList
import Abyssal.Resumption.Program

/-!
# Switches and the table of enforcement actions

Each operation on a switch or on the table of actions may fail: the environment decides whether a
request is answered, is refused without effect, or takes effect while its answer is lost. A switch
is a map from object identifiers to values, with the table of the interface index of each bridge
port. By the BRIDGE-MIB, bridge ports are numbered from 1 to 65535.
-/

namespace Abyssal.Panopticon

abbrev SwitchId := ℕ

abbrev ActionId := ℕ

/-! ### Switches -/

/-- `ifAdminStatus`, `dot1qPvid`, and the static egress and untagged ports of a VLAN. -/
inductive Oid
  | adminStatus (ifIndex : ℕ)
  | pvid (bridgePort : ℕ)
  | egressPorts (vlan : ℕ)
  | untaggedPorts (vlan : ℕ)
  deriving DecidableEq

/-- `instance_oid` of the column and the instance. -/
def Oid.parts : Oid → List ℕ
  | .adminStatus ifIndex => [1, 3, 6, 1, 2, 1, 2, 2, 1, 7, ifIndex]
  | .pvid bridgePort => [1, 3, 6, 1, 2, 1, 17, 7, 1, 4, 5, 1, 1, bridgePort]
  | .egressPorts vlan => [1, 3, 6, 1, 2, 1, 17, 7, 1, 4, 3, 1, 2, vlan]
  | .untaggedPorts vlan => [1, 3, 6, 1, 2, 1, 17, 7, 1, 4, 3, 1, 4, vlan]

inductive OwnedValue
  | integer (n : ℤ)
  | octetString (bytes : PortList)
  | counter (n : ℕ)
  deriving DecidableEq

def maxWalkEntries : ℕ := 20000

/-- A switch: its objects, and the rows of `dot1dBasePortIfIndex`. -/
structure Device where
  objects : Oid → Option OwnedValue
  basePorts : List (ℕ × OwnedValue)
  nodup_basePorts : (basePorts.map Prod.fst).Nodup
  basePorts_range : ∀ e ∈ basePorts, 1 ≤ e.1 ∧ e.1 ≤ 65535

namespace Device

variable (d : Device)

def write (oid : Oid) (value : OwnedValue) : Device :=
  { d with objects := Function.update d.objects oid (some value) }

/-- The rows that a walk of `dot1dBasePortIfIndex` returns. -/
def walk : List (ℕ × OwnedValue) := d.basePorts.take maxWalkEntries

def member (oid : Oid) (bridgePort : ℕ) : Bool :=
  match d.objects oid with
  | some (.octetString bytes) => bytes.contains bridgePort
  | _ => false

end Device

/-- The bridge port of an interface, in the rows of a walk. -/
def bridgePortIn (rows : List (ℕ × OwnedValue)) (ifIndex : ℕ) : Option ℕ :=
  (rows.find? fun e => e.2 = .integer ifIndex).map Prod.fst

def Device.bridgePort (d : Device) (ifIndex : ℕ) : Option ℕ := bridgePortIn d.walk ifIndex

/-- The admin status of a port, its PVID, and the VLANs whose egress and untagged ports it belongs
to. -/
@[ext]
structure PortState where
  adminStatus : Option OwnedValue
  pvid : Option OwnedValue
  egress : ℕ → Bool
  untagged : ℕ → Bool

def Device.port (d : Device) (ifIndex : ℕ) : PortState where
  adminStatus := d.objects (.adminStatus ifIndex)
  pvid := (d.bridgePort ifIndex).bind fun p => d.objects (.pvid p)
  egress vlan := (d.bridgePort ifIndex).any fun p => d.member (.egressPorts vlan) p
  untagged vlan := (d.bridgePort ifIndex).any fun p => d.member (.untaggedPorts vlan) p

/-! ### The table of actions -/

inductive EnforcementKind
  | disable
  | quarantine
  deriving DecidableEq

inductive EnforcementState
  | active
  | reverted
  | applyFailed
  | revertFailed
  deriving DecidableEq

def EnforcementState.isInEffect : EnforcementState → Bool
  | .active => true
  | .revertFailed => true
  | _ => false

structure NewAction where
  switchId : SwitchId
  switchName : String
  ifIndex : ℕ
  portLabel : String
  kind : EnforcementKind
  state : EnforcementState
  originalAdminStatus : Option ℤ
  originalPvid : Option ℤ
  quarantineVlan : Option ℤ
  reason : Option String
  createdBy : Option ℕ
  createdByUsername : Option String
  expiresAt : Option ℕ
  lastError : Option String
  deriving DecidableEq

structure Action extends NewAction where
  id : ActionId
  deriving DecidableEq

def Action.inEffectOn (a : Action) (switch : SwitchId) (ifIndex : ℕ) : Bool :=
  a.switchId = switch ∧ a.ifIndex = ifIndex ∧ a.state.isInEffect

/-- The action is due for its revert: its timeout has expired, or an earlier revert failed. -/
def Action.isDue (a : Action) (now : ℕ) : Bool :=
  (a.state = .active ∧ ∃ t ∈ a.expiresAt, t ≤ now) ∨ a.state = .revertFailed

/-- The order of `expires_at`, where a row without one comes first. -/
def Action.expiresNoLater (a b : Action) : Bool :=
  match a.expiresAt, b.expiresAt with
  | none, _ => true
  | some _, none => false
  | some t, some t' => t ≤ t'

structure World where
  devices : SwitchId → Device
  actions : List Action
  nextId : ActionId

namespace World

variable (w : World)

def write (switch : SwitchId) (oid : Oid) (value : OwnedValue) : World :=
  { w with devices := Function.update w.devices switch ((w.devices switch).write oid value) }

/-- `find_in_effect_for_port`. -/
def findInEffect (switch : SwitchId) (ifIndex : ℕ) : Option Action :=
  w.actions.find? fun a => a.inEffectOn switch ifIndex

def findById (id : ActionId) : Option Action := w.actions.find? fun a => a.id = id

/-- `list_due_for_revert`, in the order of the expiry. -/
def listDue (now : ℕ) : List Action :=
  (w.actions.filter fun a => a.isDue now).insertionSort fun a b => a.expiresNoLater b

/-- `create`. -/
def insert (new : NewAction) : World :=
  { w with actions := ⟨new, w.nextId⟩ :: w.actions, nextId := w.nextId + 1 }

/-- `mark_reverted`. -/
def mark (id : ActionId) (state : EnforcementState) (error : Option String) : World :=
  { w with
    actions := w.actions.map fun a =>
      if a.id = id then { a with state := state, lastError := error } else a }

end World

/-! ### Operations -/

/-- The port that a call works on, and what the call does to it. -/
structure Target where
  switch : SwitchId
  ifIndex : ℕ
  kind : EnforcementKind

def NewAction.target (a : NewAction) : Target := ⟨a.switchId, a.ifIndex, a.kind⟩

/-- The settings, the table of actions, the switch of an action, the clock, and the SNMP requests.
-/
inductive Op
  | enforcementEnabled
  | quarantineVlan
  | now
  | findInEffect (target : Target)
  | findById (id : ActionId)
  | listDue (now : ℕ)
  | findSwitch (action : Action)
  | create (new : NewAction)
  | markReverted (id : ActionId) (state : EnforcementState) (error : Option String)
  | connect (switch : SwitchId)
  | walkBasePorts (switch : SwitchId)
  | get (switch : SwitchId) (oid : Oid)
  | set (switch : SwitchId) (oid : Oid) (value : OwnedValue)

/-- The answers of the operations. A failure is answered by its message. -/
abbrev Resp : Op → Type
  | .enforcementEnabled => Bool
  | .quarantineVlan => ℕ
  | .now => ℕ
  | .findInEffect _ => Except String (Option Action)
  | .findById _ => Except String (Option Action)
  | .listDue _ => Except String (List Action)
  | .findSwitch _ => Except String Bool
  | .create _ => Except String ActionId
  | .markReverted _ _ _ => Except String Unit
  | .connect _ => Except String Unit
  | .walkBasePorts _ => Except String (List (ℕ × OwnedValue))
  | .get _ _ => Except String OwnedValue
  | .set _ _ _ => Except String Unit

/-- An operation is carried out, fails, or is carried out but reported as failed. The settings, the
clock and whether a switch was removed are chosen too. -/
inductive Choice
  | done
  | failed (message : String)
  | lost (message : String)
  | flag (value : Bool)
  | number (value : ℕ)
  | absent
  deriving DecidableEq

namespace Choice

def takes : Choice → Bool
  | .failed _ => false
  | _ => true

def report {α : Type} (a : α) : Choice → Except String α
  | .failed message => .error message
  | .lost message => .error message
  | _ => .ok a

end Choice

def Device.get (d : Device) (oid : Oid) : Except String OwnedValue :=
  match d.objects oid with
  | some value => .ok value
  | none => .error s!"SNMP error: {oid.parts} has no such instance on this switch"

def exec : (op : Op) → Choice → World → World × Resp op
  | .enforcementEnabled, c, w => (w, match c with | .flag value => value | _ => false)
  | .quarantineVlan, c, w => (w, match c with | .number value => value | _ => 0)
  | .now, c, w => (w, match c with | .number value => value | _ => 0)
  | .findInEffect target, c, w => (w, c.report (w.findInEffect target.switch target.ifIndex))
  | .findById id, c, w => (w, c.report (w.findById id))
  | .listDue now, c, w => (w, c.report (w.listDue now))
  | .findSwitch _, c, w => (w, c.report (c ≠ .absent))
  | .create new, c, w => (if c.takes then w.insert new else w, c.report w.nextId)
  | .markReverted id state error, c, w =>
    (if c.takes then w.mark id state error else w, c.report ())
  | .connect _, c, w => (w, c.report ())
  | .walkBasePorts switch, c, w => (w, c.report (w.devices switch).walk)
  | .get switch oid, c, w => (w, c.report () >>= fun _ => (w.devices switch).get oid)
  | .set switch oid value, c, w => (if c.takes then w.write switch oid value else w, c.report ())

end Abyssal.Panopticon
