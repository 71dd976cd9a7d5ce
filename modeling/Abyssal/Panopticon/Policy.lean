import Abyssal.Panopticon.Enforcement
import Abyssal.Radius.Inventory

/-!
# The policy engine

A sweep goes through the devices that the last poll has located, takes the first rule that matches
each, and applies its action to the port of the device, unless an action is in effect there or was
created there within the cooldown. One request is one step: the answer of the switch and whether the
row could be written are given with it.
-/

namespace Abyssal.Panopticon

open Radius (TrustState)

/-! ### Rules -/

inductive PolicyTrigger
  | untrusted
  | newUnknown
  deriving DecidableEq

inductive PolicyMode
  | off
  | simulate
  | active
  deriving DecidableEq

inductive DeviceType
  | unknown
  | workstation
  | server
  | printer
  | networkInfrastructure
  | iot
  | phone
  | other
  deriving DecidableEq

structure NetworkDevice where
  network : Option String
  deviceType : DeviceType
  trustState : TrustState
  switchId : Option SwitchId
  switchPort : Option String
  firstSeenAt : ℕ

structure PolicyRule where
  name : String
  trigger : PolicyTrigger
  action : EnforcementKind
  subnet : Option String
  switchId : Option SwitchId
  deviceType : Option DeviceType
  timeoutMinutes : Option ℕ

def triggerMatches (rule : PolicyRule) (device : NetworkDevice) (isNew : Bool) : Bool :=
  match rule.trigger with
  | .untrusted => device.trustState = .untrusted
  | .newUnknown => device.trustState = .unknown && isNew

def scopeMatches (rule : PolicyRule) (device : NetworkDevice) : Bool :=
  (rule.subnet.isNone || device.network = rule.subnet) &&
    (rule.switchId.isNone || device.switchId = rule.switchId) &&
    (rule.deviceType.isNone || some device.deviceType = rule.deviceType)

def ruleMatches (rule : PolicyRule) (device : NetworkDevice) (isNew : Bool) : Bool :=
  triggerMatches rule device isNew && scopeMatches rule device

def firstMatch (rules : List PolicyRule) (device : NetworkDevice) (isNew : Bool) :
    Option PolicyRule :=
  rules.find? (ruleMatches · device isNew)

/-! ### The table of actions, with times -/

structure StampedAction extends Action where
  createdAt : ℕ
  revertedAt : Option ℕ

def StampedAction.On (a : StampedAction) (switch : SwitchId) (ifIndex : ℕ) : Prop :=
  a.switchId = switch ∧ a.ifIndex = ifIndex
  deriving Decidable

def findInEffectForPort (actions : List StampedAction) (switch : SwitchId) (ifIndex : ℕ) :
    Option StampedAction :=
  actions.find? fun a => a.toAction.inEffectOn switch ifIndex

def hasRecentActionForPort (actions : List StampedAction) (switch : SwitchId) (ifIndex : ℕ)
    (since : ℕ) : Bool :=
  actions.any fun a => a.On switch ifIndex ∧ since ≤ a.createdAt

/-- `mark_reverted` at a time. -/
def markReverted (now : ℕ) (id : ActionId) (state : EnforcementState) (error : Option String)
    (actions : List StampedAction) : List StampedAction :=
  actions.map fun a =>
    if a.id = id then
      { a with
        state := state
        lastError := error
        revertedAt := if state = .reverted then some now else none }
    else a

def makePermanent (id : ActionId) (actions : List StampedAction) : List StampedAction :=
  actions.map fun a =>
    if a.id = id ∧ a.state.isInEffect then { a with expiresAt := none } else a

/-! ### The site -/

structure Settings where
  mode : PolicyMode
  newWindowMinutes : ℕ
  cooldownMinutes : ℕ
  revertMinutes : ℕ
  enforcementEnabled : Bool
  quarantineVlan : ℕ

/-- What a sweep has read at its start, the devices yet to look at, and the request that it is about
to make. -/
structure Sweep where
  mode : PolicyMode
  rules : List PolicyRule
  newWindow : ℕ
  cooldown : ℕ
  defaultTimeout : ℕ
  globalEnforcement : Bool
  now : ℕ
  remaining : List NetworkDevice
  request : Option EnforceRequest

def Sweep.newCutoff (sweep : Sweep) : ℕ := sweep.now - sweep.newWindow

def Sweep.cooldownSince (sweep : Sweep) : ℕ := sweep.now - sweep.cooldown

/-- An operator released an action that was created at a time; the engine applied one. Read by
nobody. -/
inductive Record
  | released (switch : SwitchId) (ifIndex createdAt time : ℕ)
  | applied (switch : SwitchId) (ifIndex time cooldown : ℕ)
  deriving DecidableEq

/-- The clock in seconds, the configuration, the devices and ports, the table, the sweep in
progress, and what happened. -/
structure Site where
  clock : ℕ
  settings : Settings
  rules : List PolicyRule
  located : List NetworkDevice
  switches : List Switch
  ifIndexByLabel : SwitchId → String → Option ℕ
  actions : List StampedAction
  nextId : ActionId
  sweep : Option Sweep
  history : List Record

namespace Site

variable (s : Site)

def findSwitch (id : SwitchId) : Option Switch := s.switches.find? (·.id = id)

/-- The part of `act_on_match` up to its call of `apply`: the request that it makes. -/
def actOnMatch (sweep : Sweep) (rule : PolicyRule) (switchId : SwitchId) (portLabel : String) :
    Option EnforceRequest :=
  match s.findSwitch switchId with
  | none => none
  | some switch =>
    match s.ifIndexByLabel switchId portLabel with
    | none => none
    | some ifIndex =>
      if (findInEffectForPort s.actions switchId ifIndex).isSome then none
      else if hasRecentActionForPort s.actions switchId ifIndex sweep.cooldownSince then none
      else if sweep.mode = .simulate then none
      else if !sweep.globalEnforcement || !switch.enforcementEnabled then none
      else
        some {
          switch
          ifIndex
          portLabel
          kind := rule.action
          reason := some ("Auto-enforced by policy rule \"" ++ rule.name ++ "\"")
          timeoutMinutes := rule.timeoutMinutes.getD sweep.defaultTimeout
          origin := .policy rule.name }

/-- One turn of the loop of `run_policy_sweep`. -/
def considerDevice (sweep : Sweep) (device : NetworkDevice) : Option EnforceRequest :=
  match firstMatch sweep.rules device (sweep.newCutoff ≤ device.firstSeenAt) with
  | none => none
  | some rule =>
    match device.switchId, device.switchPort with
    | some switchId, some portLabel => s.actOnMatch sweep rule switchId portLabel
    | _, _ => none

def newSweep : Option Sweep :=
  if s.settings.mode = .off ∨ s.rules.isEmpty = true then none
  else
    some {
      mode := s.settings.mode
      rules := s.rules
      newWindow := 60 * s.settings.newWindowMinutes
      cooldown := 60 * s.settings.cooldownMinutes
      defaultTimeout := s.settings.revertMinutes
      globalEnforcement := s.settings.enforcementEnabled
      now := s.clock
      remaining := s.located
      request := none }

def insert (new : NewAction) : Site :=
  { s with
    actions := ⟨⟨new, s.nextId⟩, s.clock, none⟩ :: s.actions
    nextId := s.nextId + 1 }

structure Outcome where
  snmp : Except String (Option ℤ × Option ℤ)
  table : Except String Unit

structure Applied where
  result : Except EnforceError ActionId
  changed : Bool
  site : Site

/-- The part of `apply` that writes to the switch and records the action. -/
def enforceAndRecord (req : EnforceRequest) (vlan expiresAt : Option ℕ) (outcome : Outcome) :
    Applied :=
  match outcome.snmp, outcome.table with
  | .ok prior, .ok _ =>
    ⟨.ok s.nextId, true, s.insert (req.newAction .active prior.1 prior.2 vlan expiresAt none)⟩
  | .ok _, .error e => ⟨.error (.db e), true, s⟩
  | .error message, .ok _ =>
    ⟨.error (.snmp message), false,
      s.insert (req.newAction .applyFailed none none vlan none (some message))⟩
  | .error message, .error _ => ⟨.error (.snmp message), false, s⟩

def apply (hasKey : Bool) (req : EnforceRequest) (outcome : Outcome) : Applied :=
  if !s.settings.enforcementEnabled then ⟨.error .globallyDisabled, false, s⟩
  else if !req.switch.enforcementEnabled then ⟨.error .switchNotOptedIn, false, s⟩
  else if !hasKey then ⟨.error .noEncryptionKey, false, s⟩
  else if (findInEffectForPort s.actions req.switch.id req.ifIndex).isSome then
    ⟨.error .alreadyEnforced, false, s⟩
  else if req.kind = .quarantine ∧ s.settings.quarantineVlan = 0 then
    ⟨.error .quarantineVlanUnset, false, s⟩
  else
    s.enforceAndRecord req
      (if req.kind = .quarantine then some s.settings.quarantineVlan else none)
      (if 0 < req.timeoutMinutes then some (s.clock + 60 * req.timeoutMinutes) else none) outcome

inductive ReleaseBy
  | operator
  | autoRevert
  deriving DecidableEq

/-- How a release ends: the port was restored, the switch is gone, or there was an error. -/
inductive Reverting
  | restored
  | gone
  | failed (message : String)

/-- The row of an action that was released, and the record if an operator released it. -/
def close (by_ : ReleaseBy) (action : StampedAction) (error : Option String) : Site :=
  { s with
    actions := markReverted s.clock action.id .reverted error s.actions
    history :=
      if by_ = .operator then
        .released action.switchId action.ifIndex action.createdAt s.clock :: s.history
      else s.history }

/-- `release`. If the table does not take the new state, it keeps the old one. -/
def release (by_ : ReleaseBy) (action : StampedAction) (reverting : Reverting)
    (recorded : Bool) : Site :=
  if !recorded then s
  else
    match reverting with
    | .restored => s.close by_ action none
    | .gone => s.close by_ action (some "switch no longer exists; nothing to revert on it")
    | .failed message =>
      { s with
        actions := markReverted s.clock action.id .revertFailed (some message) s.actions }

end Site

/-! ### What a request says of its port -/

theorem hasRecentActionForPort_eq_false_iff {actions : List StampedAction} {switch : SwitchId}
    {ifIndex since : ℕ} :
    hasRecentActionForPort actions switch ifIndex since = false ↔
      ∀ a ∈ actions, a.On switch ifIndex → a.createdAt < since := by
  simp [hasRecentActionForPort]

variable {sweep : Sweep} {req : EnforceRequest}

theorem of_actOnMatch {s : Site} {rule : PolicyRule} {switchId : SwitchId} {portLabel : String}
    (h : s.actOnMatch sweep rule switchId portLabel = some req) :
    req.switch.id = switchId ∧ s.ifIndexByLabel switchId portLabel = some req.ifIndex ∧
      ∀ a ∈ s.actions, a.On req.switch.id req.ifIndex →
        a.createdAt + sweep.cooldown < sweep.now := by
  rw [Site.actOnMatch] at h
  split at h
  · cases h
  · next switch hswitch =>
    have hid : switch.id = switchId := by simpa using List.find?_some hswitch
    split at h
    · cases h
    · next ifIndex hifIndex =>
      split_ifs at h with _ hrecent
      cases h
      refine ⟨hid, hifIndex, fun a ha hon => ?_⟩
      have hlt := hasRecentActionForPort_eq_false_iff.1 (Bool.eq_false_iff.2 hrecent) a ha
        (hid ▸ hon)
      rw [Sweep.cooldownSince] at hlt
      omega

def Site.portOf (s : Site) (device : NetworkDevice) : Option (SwitchId × ℕ) :=
  match device.switchId, device.switchPort with
  | some switchId, some portLabel =>
    (s.ifIndexByLabel switchId portLabel).map fun ifIndex => (switchId, ifIndex)
  | _, _ => none

theorem of_considerDevice {s : Site} {device : NetworkDevice}
    (h : s.considerDevice sweep device = some req) :
    s.portOf device = some (req.switch.id, req.ifIndex) ∧
      ∀ a ∈ s.actions, a.On req.switch.id req.ifIndex →
        a.createdAt + sweep.cooldown < sweep.now := by
  rw [Site.considerDevice] at h
  split at h
  · cases h
  · split at h
    · next switchId portLabel hswitch hport =>
      obtain ⟨hid, hifIndex, hold⟩ := of_actOnMatch h
      refine ⟨?_, hold⟩
      rw [Site.portOf, hswitch, hport]
      simp [hifIndex, hid]
    · cases h

end Abyssal.Panopticon
