import Abyssal.Machine.Guarded
import Abyssal.Panopticon.Policy

/-!
# The cooldown after a release

The engine keeps off a port on which an action was created within the cooldown. It does not look at
when the action was released, so an action that was in effect for longer gives no protection once it
is released. A release may also come between the moment at which a sweep has found a port free and
its request.

## Main results

* `respected_of_sheltered`: when the cooldown is kept.
-/

namespace Abyssal.Panopticon

open Machine List

/-! ### Steps -/

inductive Event
  /-- time passes -/
  | wait (seconds : ℕ)
  /-- settings and rules are changed, devices and ports are found -/
  | configure (settings : Settings) (rules : List PolicyRule) (located : List NetworkDevice)
      (switches : List Switch) (ifIndexByLabel : SwitchId → String → Option ℕ)
  /-- an operator applies an action -/
  | operatorApply (hasKey : Bool) (req : EnforceRequest) (outcome : Site.Outcome)
  /-- an operator or the background sweep releases an action -/
  | release (by_ : Site.ReleaseBy) (id : ActionId) (reverting : Site.Reverting) (recorded : Bool)
  /-- an operator makes an action permanent -/
  | makePermanent (id : ActionId)
  /-- the engine begins a sweep -/
  | beginSweep
  /-- the engine looks at the next device of the sweep, or fails to read the table -/
  | consider (readable : Bool)
  /-- the engine makes the request that it has decided on -/
  | makeRequest (hasKey : Bool) (outcome : Site.Outcome)

variable (s : Site)

def step : Event → Site
  | .wait seconds => { s with clock := s.clock + seconds }
  | .configure settings rules located switches ifIndexByLabel =>
    { s with settings, rules, located, switches, ifIndexByLabel }
  | .operatorApply hasKey req outcome => (s.apply hasKey req outcome).site
  | .release by_ id reverting recorded =>
    match s.actions.find? (·.id = id) with
    | none => s
    | some action => s.release by_ action reverting recorded
  | .makePermanent id => { s with actions := Panopticon.makePermanent id s.actions }
  | .beginSweep =>
    match s.sweep with
    | some _ => s
    | none => { s with sweep := s.newSweep }
  | .consider readable =>
    match s.sweep with
    | none => s
    | some sweep =>
      match sweep.request, sweep.remaining with
      | some _, _ => s
      | none, [] => { s with sweep := none }
      | none, device :: rest =>
        let request := if readable then s.considerDevice sweep device else none
        { s with sweep := some { sweep with remaining := rest, request } }
  | .makeRequest hasKey outcome =>
    match s.sweep with
    | none => s
    | some sweep =>
      match sweep.request with
      | none => s
      | some req =>
        let applied := s.apply hasKey req outcome
        { applied.site with
          sweep := some { sweep with request := none }
          history :=
            if applied.changed then
              .applied req.switch.id req.ifIndex s.clock sweep.cooldown :: s.history
            else s.history }

/-! ### The property and the condition -/

def Respected (history : List Record) : Prop :=
  ∀ later earlier switch ifIndex time cooldown,
    history = later ++ .applied switch ifIndex time cooldown :: earlier →
      ∀ createdAt released, .released switch ifIndex createdAt released ∈ earlier →
        released + cooldown ≤ time

/-- A release on the port within a cooldown is one of an action created no more than a cooldown
before the sweep began. -/
def Record.Young (sweep : Sweep) (clock : ℕ) (port : SwitchId × ℕ) : Record → Prop
  | .applied _ _ _ _ => True
  | .released switch ifIndex createdAt time =>
    (switch, ifIndex) = port → clock < time + sweep.cooldown →
      sweep.now ≤ createdAt + sweep.cooldown

instance (sweep : Sweep) (clock : ℕ) (port : SwitchId × ℕ) :
    (record : Record) → Decidable (record.Young sweep clock port)
  | .applied _ _ _ _ => .isTrue trivial
  | .released _ _ _ _ => inferInstanceAs (Decidable (_ → _ → _))

/-- The releases on the port of the device that the sweep looks at are young. -/
def Site.Young (sweep : Sweep) (device : NetworkDevice) : Prop :=
  ∀ record ∈ s.history, ∀ port ∈ s.portOf device, record.Young sweep s.clock port

def Site.Unclaimed (id : ActionId) : Prop :=
  ∀ sweep ∈ s.sweep, ∀ req ∈ sweep.request, ∀ action ∈ s.actions.find? (·.id = id),
    ¬ action.On req.switch.id req.ifIndex

def Sheltered : Event → Prop
  | .consider _ => ∀ sweep ∈ s.sweep, ∀ device ∈ sweep.remaining.head?, s.Young sweep device
  | .release .operator id _ _ => s.Unclaimed id
  | _ => True

instance (s : Site) (sweep : Sweep) (device : NetworkDevice) : Decidable (s.Young sweep device) :=
  inferInstanceAs (Decidable (∀ record ∈ s.history, ∀ port ∈ s.portOf device, _))

instance (s : Site) (id : ActionId) : Decidable (s.Unclaimed id) :=
  inferInstanceAs (Decidable (∀ sweep ∈ s.sweep, ∀ req ∈ sweep.request, _))

instance (s : Site) : (e : Event) → Decidable (Sheltered s e)
  | .consider _ => inferInstanceAs (Decidable (∀ sweep ∈ s.sweep, _))
  | .release .operator id _ _ => inferInstanceAs (Decidable (s.Unclaimed id))
  | .release .autoRevert _ _ _ => .isTrue trivial
  | .wait _ => .isTrue trivial
  | .configure _ _ _ _ _ => .isTrue trivial
  | .operatorApply _ _ _ => .isTrue trivial
  | .makePermanent _ => .isTrue trivial
  | .beginSweep => .isTrue trivial
  | .makeRequest _ _ => .isTrue trivial

/-! ### What the steps keep -/

/-- Every row of the first table is in the second, with the same port and time of creation. -/
def Retains (actions actions' : List StampedAction) : Prop :=
  ∀ a ∈ actions, ∃ a' ∈ actions', a'.switchId = a.switchId ∧ a'.ifIndex = a.ifIndex ∧
    a'.createdAt = a.createdAt

theorem retains_map {p : StampedAction → Prop} [DecidablePred p]
    {f : StampedAction → StampedAction} (actions : List StampedAction)
    (h : ∀ a, (f a).switchId = a.switchId ∧ (f a).ifIndex = a.ifIndex ∧
      (f a).createdAt = a.createdAt) :
    Retains actions (actions.map fun a => if p a then f a else a) := by
  refine fun a ha => ⟨_, mem_map_of_mem ha, ?_⟩
  split
  · exact h a
  · exact ⟨rfl, rfl, rfl⟩

theorem retains_markReverted (now : ℕ) (id : ActionId) (state : EnforcementState)
    (error : Option String) (actions : List StampedAction) :
    Retains actions (markReverted now id state error actions) :=
  retains_map actions fun _ => ⟨rfl, rfl, rfl⟩

theorem retains_makePermanent (id : ActionId) (actions : List StampedAction) :
    Retains actions (makePermanent id actions) :=
  retains_map actions fun _ => ⟨rfl, rfl, rfl⟩

private theorem enforceAndRecord_site (req : EnforceRequest) (vlan expiresAt : Option ℕ)
    (outcome : Site.Outcome) :
    (s.enforceAndRecord req vlan expiresAt outcome).site = s ∨
      ∃ new, (s.enforceAndRecord req vlan expiresAt outcome).site = s.insert new := by
  rw [Site.enforceAndRecord]
  split
  · exact .inr ⟨_, rfl⟩
  · exact .inl rfl
  · exact .inr ⟨_, rfl⟩
  · exact .inl rfl

theorem apply_site (hasKey : Bool) (req : EnforceRequest) (outcome : Site.Outcome) :
    (s.apply hasKey req outcome).site = s ∨
      ∃ new, (s.apply hasKey req outcome).site = s.insert new := by
  rw [Site.apply]
  -- each gate leaves the site as it is
  iterate 5
    split
    · exact .inl rfl
  exact enforceAndRecord_site s req _ _ outcome

/-- Releases have left their rows, and requests come late enough after every release on their port.
-/
structure Waits : Prop where
  rows : ∀ switch ifIndex createdAt time, .released switch ifIndex createdAt time ∈ s.history →
    ∃ a ∈ s.actions, a.On switch ifIndex ∧ a.createdAt = createdAt
  request : ∀ sweep ∈ s.sweep, ∀ req ∈ sweep.request, ∀ createdAt time,
    .released req.switch.id req.ifIndex createdAt time ∈ s.history →
      time + sweep.cooldown ≤ s.clock
  respected : Respected s.history

variable {s : Site} {actions : List StampedAction}

theorem Waits.rows_of_retains (h : Waits s)
    (hretains : Retains s.actions actions) (switch : SwitchId) (ifIndex createdAt time : ℕ)
    (hmem : .released switch ifIndex createdAt time ∈ s.history) :
    ∃ a ∈ actions, a.On switch ifIndex ∧ a.createdAt = createdAt := by
  obtain ⟨a, ha, ⟨hswitch, hifIndex⟩, hcreated⟩ := h.rows switch ifIndex createdAt time hmem
  obtain ⟨a', ha', hswitch', hifIndex', hcreated'⟩ := hretains a ha
  exact ⟨a', ha', ⟨hswitch'.trans hswitch, hifIndex'.trans hifIndex⟩, hcreated'.trans hcreated⟩

theorem Waits.withActions (h : Waits s) {nextId : ActionId}
    (hretains : Retains s.actions actions) : Waits { s with actions, nextId } :=
  ⟨h.rows_of_retains hretains, h.request, h.respected⟩

theorem Waits.withSweep (h : Waits s) {sweep : Option Sweep}
    (hrequest : ∀ sweep' ∈ sweep, ∀ req ∈ sweep'.request, ∀ createdAt time,
      .released req.switch.id req.ifIndex createdAt time ∈ s.history →
        time + sweep'.cooldown ≤ s.clock) : Waits { s with sweep } :=
  ⟨h.rows, hrequest, h.respected⟩

theorem retains_insert (s : Site) (new : NewAction) : Retains s.actions (s.insert new).actions :=
  fun a ha => ⟨a, mem_cons_of_mem _ ha, rfl, rfl, rfl⟩

theorem Waits.apply (h : Waits s) (hasKey : Bool) (req : EnforceRequest)
    (outcome : Site.Outcome) : Waits (s.apply hasKey req outcome).site := by
  rcases apply_site s hasKey req outcome with hsite | ⟨new, hsite⟩
  · rwa [hsite]
  · rw [hsite]
    exact h.withActions (retains_insert s new)

variable {record : Record}

theorem respected_cons {history : List Record} (h : Respected history)
    (hrecord : ∀ switch ifIndex time cooldown, record = .applied switch ifIndex time cooldown →
      ∀ createdAt released, .released switch ifIndex createdAt released ∈ history →
        released + cooldown ≤ time) :
    Respected (record :: history) := by
  intro later earlier switch ifIndex time cooldown heq
  cases later with
  | nil =>
    cases heq
    exact hrecord switch ifIndex time cooldown rfl
  | cons _ later => exact h later earlier switch ifIndex time cooldown (cons.inj heq).2

variable {by_ : Site.ReleaseBy} {action : StampedAction}

theorem Waits.close (h : Waits s) (haction : action ∈ s.actions)
    (hunclaimed : by_ = .operator → ∀ sweep ∈ s.sweep, ∀ req ∈ sweep.request,
      ¬ action.On req.switch.id req.ifIndex) (error : Option String) :
    Waits (s.close by_ action error) := by
  have hretains := retains_markReverted s.clock action.id .reverted error s.actions
  rw [Site.close]
  split_ifs with hoperator
  · refine ⟨?_, ?_, ?_⟩
    · intro switch ifIndex createdAt time hmem
      rcases mem_cons.1 hmem with heq | hmem
      · cases heq
        obtain ⟨a, ha, hswitch, hifIndex, hcreated⟩ := hretains action haction
        exact ⟨a, ha, ⟨hswitch, hifIndex⟩, hcreated⟩
      · exact h.rows_of_retains hretains switch ifIndex createdAt time hmem
    · intro sweep hsweep req hreq createdAt time hmem
      rcases mem_cons.1 hmem with heq | hmem
      · obtain ⟨hswitch, hifIndex, -, -⟩ := Record.released.inj heq
        exact absurd ⟨hswitch.symm, hifIndex.symm⟩ (hunclaimed hoperator sweep hsweep req hreq)
      · exact h.request sweep hsweep req hreq createdAt time hmem
    · exact respected_cons h.respected nofun
  · exact h.withActions hretains

theorem Waits.release (h : Waits s) (haction : action ∈ s.actions)
    (hunclaimed : by_ = .operator → ∀ sweep ∈ s.sweep, ∀ req ∈ sweep.request,
      ¬ action.On req.switch.id req.ifIndex)
    (reverting : Site.Reverting) (recorded : Bool) :
    Waits (s.release by_ action reverting recorded) := by
  cases recorded with
  | false => exact h
  | true =>
    cases reverting with
    | restored => exact h.close haction hunclaimed none
    | gone => exact h.close haction hunclaimed _
    | failed message =>
      exact h.withActions (retains_markReverted s.clock action.id .revertFailed (some message) _)

variable {sweep : Sweep} {req : EnforceRequest}

theorem Waits.considerDevice (h : Waits s) {device : NetworkDevice} (hyoung : s.Young sweep device)
    (hreq : s.considerDevice sweep device = some req) {createdAt time : ℕ}
    (hmem : .released req.switch.id req.ifIndex createdAt time ∈ s.history) :
    time + sweep.cooldown ≤ s.clock := by
  obtain ⟨hport, hold⟩ := of_considerDevice hreq
  obtain ⟨a, ha, hon, rfl⟩ := h.rows _ _ _ _ hmem
  have hlt := hold a ha hon
  have hrecord := hyoung _ hmem _ hport
  by_contra hlate
  have hle := hrecord rfl (Nat.lt_of_not_le hlate)
  omega

theorem Waits.makeRequest (h : Waits s) (hsweep : s.sweep = some sweep)
    (hreq : sweep.request = some req) (hasKey : Bool) (outcome : Site.Outcome)
    (hrecord : record = .applied req.switch.id req.ifIndex s.clock sweep.cooldown) :
    Waits { (s.apply hasKey req outcome).site with
      sweep := some { sweep with request := none }
      history := if (s.apply hasKey req outcome).changed then record :: s.history
        else s.history } := by
  have happly := h.apply hasKey req outcome
  have hhistory : (s.apply hasKey req outcome).site.history = s.history := by
    rcases apply_site s hasKey req outcome with hsite | ⟨new, hsite⟩
    · rw [hsite]
    · rw [hsite]
      rfl
  have hrows := happly.rows
  rw [hhistory] at hrows
  subst hrecord
  refine ⟨fun switch ifIndex createdAt time hmem => ?_, ?_, ?_⟩
  · refine hrows switch ifIndex createdAt time ?_
    split_ifs at hmem
    · exact (mem_cons.1 hmem).resolve_left nofun
    · exact hmem
  · rintro _ ⟨⟩ _ ⟨⟩
  · split_ifs
    · refine respected_cons h.respected
        fun switch ifIndex time cooldown heq createdAt released => ?_
      cases heq
      exact h.request sweep hsweep req hreq createdAt released
    · exact h.respected

theorem Waits.step (h : Waits s) {e : Event} (hok : Sheltered s e) : Waits (step s e) := by
  cases e with
  | wait =>
    exact ⟨h.rows, fun sweep hsweep req hreq createdAt time hmem =>
      Nat.le_trans (h.request sweep hsweep req hreq createdAt time hmem) (Nat.le_add_right _ _),
      h.respected⟩
  | configure =>
    exact ⟨h.rows, h.request, h.respected⟩
  | operatorApply hasKey req outcome => exact h.apply hasKey req outcome
  | release _ _ reverting recorded =>
    rw [Panopticon.step]
    split
    · exact h
    · next action hfind =>
      refine h.release (mem_of_find?_eq_some hfind) ?_ reverting recorded
      rintro rfl sweep hsweep req hreq
      exact hok sweep hsweep req hreq action hfind
  | makePermanent id => exact h.withActions (retains_makePermanent id s.actions)
  | beginSweep =>
    rw [Panopticon.step]
    split
    · exact h
    · refine h.withSweep fun sweep hsweep req hreq => ?_
      rw [Site.newSweep] at hsweep
      split_ifs at hsweep
      · cases hsweep
      · cases hsweep
        cases hreq
  | consider readable =>
    rw [Panopticon.step]
    split
    · exact h
    · next sweep hsweep =>
      split
      · exact h
      · exact h.withSweep nofun
      · next device rest hrequest hremaining =>
        refine h.withSweep fun sweep' hsweep' req hreq createdAt time hmem => ?_
        cases hsweep'
        have hyoung := hok sweep hsweep device (by simp [hremaining])
        cases readable with
        | false => cases hreq
        | true => exact h.considerDevice hyoung hreq hmem
  | makeRequest hasKey outcome =>
    rw [Panopticon.step]
    split
    · exact h
    · next sweep hsweep =>
      split
      · exact h
      · next req hreq => exact h.makeRequest hsweep hreq hasKey outcome rfl

/-- In every run whose steps meet the condition, the engine applies no action to a port within the
cooldown after an operator released one there. -/
theorem respected_of_sheltered {s₀ s : Site} (hhistory : s₀.history = []) (hsweep : s₀.sweep = none)
    (h : Reached step Sheltered s₀ s) : Respected s.history := by
  have hwaits : Waits s := by
    refine h.inv ?_ fun _ _ hs hok => hs.step hok
    refine ⟨?_, ?_, ?_⟩
    · simp [hhistory]
    · simp [hsweep]
    · simp [Respected, hhistory]
  exact hwaits.respected

/-! ### A small site -/

/-- One switch, one untrusted device, and a rule that disables its port for good. The cooldown is an
hour. -/
def smallSite : Site where
  clock := 0
  settings := ⟨.active, 60, 60, 30, true, 0⟩
  rules := [⟨"untrusted", .untrusted, .disable, none, none, none, some 0⟩]
  located := [⟨none, .unknown, .untrusted, some 0, some "Gi1", 0⟩]
  switches := [⟨0, "sw", true⟩]
  ifIndexByLabel _ _ := some 1
  actions := []
  nextId := 0
  sweep := none
  history := []

def oneSweep : List Event :=
  [.beginSweep, .consider true, .makeRequest true ⟨.ok (some 1, none), .ok ()⟩, .consider true]

def promptRelease : List Event :=
  oneSweep ++ [.wait 600, .release .operator 0 .restored true, .wait 1200] ++ oneSweep ++
    [.wait 4000] ++ oneSweep

theorem respected_of_sheltered_promptRelease :
    (promptRelease.foldl step smallSite).history =
      [.applied 0 1 5800 3600, .released 0 1 0 600, .applied 0 1 0 3600] ∧
    Respected (promptRelease.foldl step smallSite).history :=
  ⟨by decide, respected_of_sheltered rfl rfl (reached_of_allows (by decide))⟩

def lateRelease : List Event :=
  oneSweep ++ [.wait 7200, .release .operator 0 .restored true, .wait 60] ++ oneSweep

/-- The next sweep disables the port again, a minute after the release. -/
theorem not_respected_of_lateRelease :
    (lateRelease.foldl step smallSite).history =
      [.applied 0 1 7260 3600, .released 0 1 0 7200, .applied 0 1 0 3600] ∧
    ¬ Respected (lateRelease.foldl step smallSite).history := by
  have hhistory : (lateRelease.foldl step smallSite).history =
      [.applied 0 1 7260 3600, .released 0 1 0 7200, .applied 0 1 0 3600] := by decide
  refine ⟨hhistory, fun h => ?_⟩
  rw [hhistory] at h
  exact absurd (h [] _ 0 1 7260 3600 rfl 0 7200 mem_cons_self) (by decide)

end Abyssal.Panopticon
