import Abyssal.Panopticon.CallRuns

/-!
# The rules of orderly runs

In an orderly run each call has the objects of its port to itself, and a quarantine also the port
lists of the switch. This file has the invariant, what a call relies on, and where it may perform
each operation.
-/

namespace Abyssal.Panopticon

open Resumption List Net

variable {lists : Bool} {i j : ThreadId} {s s' s'' : Net}

/-! ### What a call owns on its switch -/

/-- The admin status and the PVID of the port and, for a quarantine, the port lists did not change.
-/
structure OwnKept (t : Target) (d d' : Device) : Prop where
  bridgePort : ∀ f, d'.bridgePort f = d.bridgePort f
  adminStatus : d'.objects (.adminStatus t.ifIndex) = d.objects (.adminStatus t.ifIndex)
  pvid : ∀ p, d.bridgePort t.ifIndex = some p → d'.objects (.pvid p) = d.objects (.pvid p)
  egress : t.kind = .quarantine →
    ∀ vlan, d'.objects (.egressPorts vlan) = d.objects (.egressPorts vlan)
  untagged : t.kind = .quarantine →
    ∀ vlan, d'.objects (.untaggedPorts vlan) = d.objects (.untaggedPorts vlan)

theorem OwnKept.refl (t : Target) (d : Device) : OwnKept t d d :=
  ⟨fun _ => rfl, rfl, fun _ _ => rfl, fun _ _ => rfl, fun _ _ => rfl⟩

theorem OwnKept.trans {t : Target} {d d' d'' : Device} (h : OwnKept t d d')
    (h' : OwnKept t d' d'') : OwnKept t d d'' where
  bridgePort f := (h'.bridgePort f).trans (h.bridgePort f)
  adminStatus := h'.adminStatus.trans h.adminStatus
  pvid p hp := (h'.pvid p ((h.bridgePort _).trans hp)).trans (h.pvid p hp)
  egress hk vlan := (h'.egress hk vlan).trans (h.egress hk vlan)
  untagged hk vlan := (h'.untagged hk vlan).trans (h.untagged hk vlan)

/-- A call sets objects of its own port; a port list only in a quarantine, and only its own bit. -/
def Edits (t : Target) (d : Device) : Oid → OwnedValue → Prop
  | .adminStatus f, _ => f = t.ifIndex
  | .pvid p, _ => d.bridgePort t.ifIndex = some p
  | .egressPorts vlan, value => t.kind = .quarantine ∧ ∃ p bytes on,
      d.bridgePort t.ifIndex = some p ∧ d.objects (.egressPorts vlan) = some (.octetString bytes) ∧
      value = .octetString (portlistSet bytes p on).1
  | .untaggedPorts vlan, value => t.kind = .quarantine ∧ ∃ p bytes on,
      d.bridgePort t.ifIndex = some p ∧
      d.objects (.untaggedPorts vlan) = some (.octetString bytes) ∧
      value = .octetString (portlistSet bytes p on).1

variable {oid : Oid} {value : OwnedValue}

theorem Edits.othersKept {t : Target} {w : World} (h : Edits t (w.devices t.switch) oid value) :
    OthersKept w (w.write t.switch oid value) t.switch t.ifIndex := by
  cases oid with
  | adminStatus f =>
    obtain rfl : f = t.ifIndex := h
    exact othersKept_adminStatus
  | pvid => exact othersKept_pvid h
  | egressPorts =>
    obtain ⟨-, p, bytes, on, hp, hobj, rfl⟩ := h
    exact othersKept_write_portlist (.inl rfl) hp hobj
  | untaggedPorts =>
    obtain ⟨-, _, _, _, hp, hobj, rfl⟩ := h
    exact othersKept_write_portlist (.inr rfl) hp hobj

open World

variable {t' : Target}

theorem Edits.ownKept {t : Target} {w : World}
    (h : Edits t (w.devices t.switch) oid value) (hne : ¬ t.Conflicts true t') :
    OwnKept t' (w.devices t'.switch) ((w.write t.switch oid value).devices t'.switch) := by
  by_cases hswitch : t'.switch = t.switch
  swap
  · rw [write_devices_of_ne _ _ _ hswitch]
    exact .refl _ _
  have hindex : t.ifIndex ≠ t'.ifIndex := fun he => hne ⟨hswitch.symm, .inl he⟩
  have hkinds : t'.kind = .quarantine → t.kind ≠ .quarantine := fun hk' hk =>
    hne ⟨hswitch.symm, .inr ⟨rfl, hk, hk'⟩⟩
  rw [hswitch, write_devices_self]
  refine ⟨fun f => rfl, ?_, fun p hp => ?_, fun hk vlan => ?_, fun hk vlan => ?_⟩
  all_goals refine Device.write_objects_of_ne _ _ ?_
  · rintro rfl
    exact hindex (Eq.symm h)
  · rintro rfl
    exact hindex (Device.bridgePort_inj h hp)
  · rintro rfl
    exact hkinds hk h.1
  · rintro rfl
    exact hkinds hk h.1

/-! ### The invariant -/

def NewAction.Enforced (a : NewAction) (p : PortState) : Prop :=
  match a.kind with
  | .disable => p.adminStatus = some (.integer ifAdminDown)
  | .quarantine => ∃ vlan : ℕ, a.quarantineVlan = some ↑vlan ∧ p.pvid = some (.integer vlan) ∧
      p.egress vlan = true ∧ p.untagged vlan = true

structure World.Consistent (w : World) : Prop where
  ids : ∀ a ∈ w.actions, ∀ b ∈ w.actions, a.id = b.id → a = b
  bound : ∀ a ∈ w.actions, a.id < w.nextId
  single : ∀ a ∈ w.actions, ∀ b ∈ w.actions, a.state.isInEffect = true →
    b.state.isInEffect = true → a.target.SamePort b.target → a = b

/-- Calls in progress do not conflict. An enforcement call has no action in effect on its port, a
release its own. With `lists`, a port with an active action is in the enforced state unless a call
on it is in progress. -/
structure Wf (lists : Bool) (w : World) (calls : List (ThreadId × Call)) : Prop
    extends w.Consistent where
  own : ∀ {i c c'}, (i, c) ∈ calls → (i, c') ∈ calls → c = c'
  apart : ∀ {i j c c'}, (i, c) ∈ calls → (j, c') ∈ calls → i ≠ j →
    ¬ c.target.Conflicts lists c'.target
  applying : ∀ {i c}, (i, c) ∈ calls → c.action = none → ∀ a ∈ w.actions,
    a.state.isInEffect = true → ¬ c.target.SamePort a.target
  releasing : ∀ {i c id}, (i, c) ∈ calls → c.action = some id → ∃ a ∈ w.actions,
    a.id = id ∧ a.target = c.target ∧ a.state.isInEffect = true
  enforced : lists = true → ∀ a ∈ w.actions, a.state = .active →
    (∀ e ∈ calls, ¬ e.2.target.SamePort a.target) →
    a.Enforced ((w.devices a.switchId).port a.ifIndex)

variable {w : World} {calls : List (ThreadId × Call)} {t : Target}

theorem Target.SamePort.conflicts (h : t.SamePort t') : t.Conflicts lists t' :=
  ⟨h.1, .inl h.2⟩

theorem Target.SamePort.symm (h : t.SamePort t') : t'.SamePort t :=
  ⟨h.1.symm, h.2.symm⟩

theorem Target.Conflicts.symm (h : t.Conflicts lists t') : t'.Conflicts lists t :=
  ⟨h.1.symm, h.2.imp Eq.symm fun ⟨hl, hk, hk'⟩ => ⟨hl, hk', hk⟩⟩

abbrev others (i : ThreadId) (calls : List (ThreadId × Call)) : List (ThreadId × Call) :=
  calls.filter fun e => e.1 ≠ i

theorem mem_others {e : ThreadId × Call} : e ∈ others i calls ↔ e ∈ calls ∧ e.1 ≠ i := by
  simp [others]

def World.Knows (w : World) (a : Action) : Prop :=
  ∃ b ∈ w.actions, b.id = a.id ∧ b.target = a.target

def pre (lists : Bool) (i : ThreadId) : Op → Net → Prop
  | .findInEffect _, s => s.IsOut i
  | .findSwitch action, s => s.IsOut i ∧ s.world.Knows action
  | .quarantineVlan, s => ∃ c, (i, c) ∈ s.calls ∧ c.action = none
  | .create new, s => ∃ c, (i, c) ∈ s.calls ∧ c.action = none ∧ new.target = c.target ∧
      (lists = true → new.state = .active →
        new.Enforced ((s.world.devices new.switchId).port new.ifIndex))
  | .markReverted id state _, s => (∀ c, (i, c) ∈ s.calls → c.action = some id) ∧
      (state = .revertFailed ∨ state = .reverted ∧ ∃ c, (i, c) ∈ s.calls)
  | .set switch oid value, s => ∃ c, (i, c) ∈ s.calls ∧ c.target.switch = switch ∧
      (lists = true → Edits c.target (s.world.devices c.target.switch) oid value)
  | _, _ => True

theorem Wf.others (h : Wf lists w calls)
    (hi : ∀ c a, (i, c) ∈ calls → a ∈ w.actions → a.state = .active →
      lists → ¬ c.target.SamePort a.target) : Wf lists w (others i calls) where
  toConsistent := h.toConsistent
  own hc hc' := h.own (mem_others.mp hc).1 (mem_others.mp hc').1
  apart hc hc' := h.apart (mem_others.mp hc).1 (mem_others.mp hc').1
  applying hc := h.applying (mem_others.mp hc).1
  releasing hc := h.releasing (mem_others.mp hc).1
  enforced hl a ha hstate hno := by
    refine h.enforced hl a ha hstate fun e he hport => ?_
    by_cases hei : e.1 = i
    · exact hi e.2 a (hei ▸ he) ha hstate hl hport
    · exact hno e (mem_others.mpr ⟨he, hei⟩) hport

structure Entering (lists : Bool) (i : ThreadId) (s : Net) (call : Call) : Prop where
  isOut : s.IsOut i
  free : s.Free lists i call.target
  applying : call.action = none → ∀ a ∈ s.world.actions, a.state.isInEffect →
    ¬ call.target.SamePort a.target
  releasing : ∀ id, call.action = some id → ∃ a ∈ s.world.actions,
    a.id = id ∧ a.target = call.target ∧ a.state.isInEffect

variable {call : Call}

theorem Wf.enter (h : Wf lists s.world s.calls) (hcall : Entering lists i s call) :
    Wf lists s.world ((i, call) :: Panopticon.others i s.calls) := by
  have hmem : ∀ {j c}, (j, c) ∈ (i, call) :: Panopticon.others i s.calls →
      j = i ∧ c = call ∨ (j, c) ∈ s.calls ∧ j ≠ i := by
    intro j c hc
    rcases mem_cons.mp hc with heq | hc
    · exact .inl (Prod.mk.inj heq)
    · exact .inr (mem_others.mp hc)
  refine ⟨h.toConsistent, ?_, ?_, ?_, ?_, ?_⟩
  · intro j c c' hc hc'
    rcases hmem hc with ⟨rfl, rfl⟩ | ⟨h₁, hne⟩ <;> rcases hmem hc' with ⟨hj, rfl⟩ | ⟨h₂, hne'⟩
    · rfl
    · exact absurd rfl hne'
    · exact absurd hj hne
    · exact h.own h₁ h₂
  · intro j k c c' hc hc' hjk
    rcases hmem hc with ⟨rfl, rfl⟩ | ⟨h₁, hne⟩ <;> rcases hmem hc' with ⟨rfl, rfl⟩ | ⟨h₂, hne'⟩
    · exact absurd rfl hjk
    · exact hcall.free _ h₂ hne'
    · exact fun hcon => hcall.free (j, c) h₁ hne hcon.symm
    · exact h.apart h₁ h₂ hjk
  · intro j c hc
    rcases hmem hc with ⟨rfl, rfl⟩ | ⟨hc, -⟩
    · exact hcall.applying
    · exact h.applying hc
  · intro j c id hc hid
    rcases hmem hc with ⟨rfl, rfl⟩ | ⟨hc, -⟩
    · exact hcall.releasing id hid
    · exact h.releasing hc hid
  · intro hl a ha hstate hno
    refine h.enforced hl a ha hstate fun e he => hno e (mem_cons_of_mem _ ?_)
    exact mem_others.mpr ⟨he, hcall.isOut e he⟩

theorem Wf.not_samePort {a : Action} {c : Call} (h : Wf lists w calls)
    (hcall : (i, call) ∈ calls) (haction : call.action = none) (hc : (i, c) ∈ calls)
    (ha : a ∈ w.actions) (hstate : a.state = .active) : ¬ c.target.SamePort a.target := by
  obtain rfl := h.own hcall hc
  exact h.applying hcall haction a ha (by rw [hstate]; rfl)

theorem Wf.insert {new : NewAction} (h : Wf lists s.world s.calls)
    (hpre : pre lists i (.create new) s) :
    Wf lists (s.world.insert new) (Panopticon.others i s.calls) := by
  obtain ⟨c, hc, haction, htarget, henforced⟩ := hpre
  have hleft := h.others fun c' a hc' ha hstate _ => h.not_samePort hc haction hc' ha hstate
  have hmem : ∀ {a}, a ∈ (s.world.insert new).actions →
      a = ⟨new, s.world.nextId⟩ ∨ a ∈ s.world.actions := mem_cons.mp
  have hrow : ∀ a ∈ s.world.actions, a.state.isInEffect → ¬ new.target.SamePort a.target :=
    fun a ha heff => htarget ▸ h.applying hc haction a ha heff
  refine ⟨⟨?_, ?_, ?_⟩, hleft.own, hleft.apart, ?_, ?_, ?_⟩
  · intro a ha b hb hid
    rcases hmem ha with rfl | ha <;> rcases hmem hb with rfl | hb
    · rfl
    · exact absurd hid (h.bound b hb).ne'
    · exact absurd hid (h.bound a ha).ne
    · exact h.ids a ha b hb hid
  · intro a ha
    rcases hmem ha with rfl | ha
    · exact Nat.lt_succ_self _
    · exact Nat.lt_succ_of_lt (h.bound a ha)
  · intro a ha b hb haeff hbeff hport
    rcases hmem ha with rfl | ha <;> rcases hmem hb with rfl | hb
    · rfl
    · exact absurd hport (hrow b hb hbeff)
    · exact absurd hport.symm (hrow a ha haeff)
    · exact h.single a ha b hb haeff hbeff hport
  · intro j c' hc' haction' a ha haeff
    obtain ⟨hc', hne⟩ := mem_others.mp hc'
    rcases hmem ha with rfl | ha
    · intro hport
      exact h.apart hc' hc hne (htarget ▸ hport : c'.target.SamePort c.target).conflicts
    · exact h.applying hc' haction' a ha haeff
  · intro j c' id hc' hid
    obtain ⟨a, ha, hrest⟩ := hleft.releasing hc' hid
    exact ⟨a, mem_cons_of_mem _ ha, hrest⟩
  · intro hl a ha hstate hno
    rcases hmem ha with rfl | ha
    · exact henforced hl hstate
    · exact hleft.enforced hl a ha hstate hno

variable {error : Option String} {id : ActionId} {state : EnforcementState} {a' : Action}

theorem World.mem_mark : a' ∈ (w.mark id state error).actions ↔ ∃ a ∈ w.actions,
      a.id ≠ id ∧ a' = a ∨ a.id = id ∧ a' = { a with state := state, lastError := error } := by
  simp only [mark, mem_map]
  refine exists_congr fun a => and_congr_right fun _ => ?_
  by_cases hid : a.id = id
  · simp only [hid, ne_eq, not_true_eq_false, false_and, true_and, false_or]
    exact eq_comm
  · simp only [hid, ne_eq, not_false_eq_true, false_and, true_and, or_false]
    exact eq_comm

theorem World.Consistent.of_mem_mark (h : w.Consistent) (hrow : w.InEffect id)
    (ha' : a' ∈ (w.mark id state error).actions) : ∃ a ∈ w.actions,
      a'.id = a.id ∧ a'.target = a.target ∧
      (a'.state.isInEffect → a.state.isInEffect) ∧
      (a' = a ∧ a.id ≠ id ∨ a.id = id ∧ a'.state = state) := by
  obtain ⟨b, hb, hbid, hbeff⟩ := hrow
  obtain ⟨a, ha, ⟨hid, rfl⟩ | ⟨hid, rfl⟩⟩ := mem_mark.mp ha'
  · exact ⟨a', ha, rfl, rfl, fun heff => heff, .inl ⟨rfl, hid⟩⟩
  · obtain rfl := h.ids b hb a ha (hbid.trans hid.symm)
    exact ⟨b, ha, rfl, rfl, fun _ => hbeff, .inr ⟨hid, rfl⟩⟩

/-- A thread without a call in progress updates an action for a release that did not reach the
switch. -/
theorem Wf.mark (h : Wf lists s.world s.calls)
    (hpre : pre lists i (.markReverted id state error) s) (hrow : s.world.InEffect id) :
    Wf lists (s.world.mark id state error) (Panopticon.others i s.calls) := by
  obtain ⟨hown, hstate⟩ := hpre
  have hnotActive : state ≠ .active := by
    rcases hstate with rfl | ⟨rfl, -⟩ <;> simp
  have hmem : ∀ {a'}, a' ∈ (s.world.mark id state error).actions → _ := h.of_mem_mark hrow
  have hids : ∀ a' ∈ (s.world.mark id state error).actions,
      ∀ b' ∈ (s.world.mark id state error).actions, a'.id = b'.id → a' = b' := by
    intro a' ha' b' hb' hid'
    obtain ⟨a, ha, hcase⟩ := mem_mark.mp ha'
    obtain ⟨c, hc, hcase'⟩ := mem_mark.mp hb'
    have hac : a = c := by
      refine h.ids a ha c hc ?_
      rcases hcase with ⟨-, rfl⟩ | ⟨-, rfl⟩ <;> rcases hcase' with ⟨-, rfl⟩ | ⟨-, rfl⟩ <;>
        exact hid'
    subst hac
    rcases hcase with ⟨hne, rfl⟩ | ⟨heq, rfl⟩ <;> rcases hcase' with ⟨hne', rfl⟩ | ⟨heq', rfl⟩
    · rfl
    · exact absurd heq' hne
    · exact absurd heq hne'
    · rfl
  refine ⟨⟨?_, ?_, ?_⟩, ?_, ?_, ?_, ?_, ?_⟩
  · exact hids
  · intro a' ha'
    obtain ⟨a, ha, hid, -⟩ := hmem ha'
    exact hid ▸ h.bound a ha
  · intro a' ha' b' hb' haeff hbeff' hport
    obtain ⟨a, ha, hid, htarget, heff, -⟩ := hmem ha'
    obtain ⟨c, hc, hid', htarget', heff', -⟩ := hmem hb'
    rw [htarget, htarget'] at hport
    have hac := h.single a ha c hc (heff haeff) (heff' hbeff') hport
    exact hids a' ha' b' hb' (hid.trans (hac ▸ hid'.symm))
  · exact fun hc hc' => h.own (mem_others.mp hc).1 (mem_others.mp hc').1
  · exact fun hc hc' => h.apart (mem_others.mp hc).1 (mem_others.mp hc').1
  · intro j c hc haction a' ha' haeff
    obtain ⟨a, ha, -, htarget, heff, -⟩ := hmem ha'
    exact htarget ▸ h.applying (mem_others.mp hc).1 haction a ha (heff haeff)
  · intro j c id' hc hid'
    obtain ⟨hc, hne⟩ := mem_others.mp hc
    obtain ⟨a, ha, haid, htarget, haeff⟩ := h.releasing hc hid'
    by_cases hid : a.id = id
    · refine ⟨{ a with state := state, lastError := error },
        mem_mark.mpr ⟨a, ha, .inr ⟨hid, rfl⟩⟩, haid, htarget, ?_⟩
      rcases hstate with rfl | ⟨rfl, c', hc'⟩
      · rfl
      · -- two releases of one action would conflict
        obtain ⟨a₂, ha₂, haid₂, htarget₂, -⟩ := h.releasing hc' (hown c' hc')
        obtain rfl := h.ids a ha a₂ ha₂ (hid.trans haid₂.symm)
        have hport : c.target.SamePort c'.target := by
          rw [← htarget, ← htarget₂]
          exact ⟨rfl, rfl⟩
        exact absurd hport.conflicts (h.apart hc hc' hne)
    · exact ⟨a, mem_mark.mpr ⟨a, ha, .inl ⟨hid, rfl⟩⟩, haid, htarget, haeff⟩
  · intro hl a' ha' hactive hno
    obtain ⟨_, ha, -, -, -, hsame⟩ := hmem ha'
    obtain ⟨rfl, hne⟩ := hsame.resolve_right fun h' => hnotActive (h'.2.symm.trans hactive)
    refine h.enforced hl a' ha hactive fun e he hport => ?_
    by_cases hei : e.1 = i
    · obtain ⟨a₂, ha₂, haid₂, htarget₂, haeff₂⟩ := h.releasing he (hown e.2 (hei ▸ he))
      have heq := h.single a₂ ha₂ a' ha haeff₂ (by rw [hactive]; rfl) (htarget₂ ▸ hport)
      exact hne (heq ▸ haid₂)
    · exact hno e (mem_others.mpr ⟨he, hei⟩) hport

theorem Wf.write {c : Call} (h : Wf lists w calls) (hc : (i, c) ∈ calls)
    (hedit : lists → Edits c.target (w.devices c.target.switch) oid value) :
    Wf lists (w.write c.target.switch oid value) calls where
  toConsistent := ⟨h.ids, h.bound, h.single⟩
  own := h.own
  apart := h.apart
  applying := h.applying
  releasing := h.releasing
  enforced hl a ha hstate hno := by
    have hkept := (hedit hl).othersKept
    have hold := h.enforced hl a ha hstate hno
    have hport := hno _ hc
    by_cases hswitch : a.switchId = c.target.switch
    · have hindex : a.ifIndex ≠ c.target.ifIndex := fun he => hport ⟨hswitch.symm, he.symm⟩
      rwa [hswitch, hkept.port hindex, ← hswitch]
    · rwa [hkept.switches _ hswitch]

/-! ### Rules -/

variable {a : Action}

theorem World.Knows.insert (h : w.Knows a) (new : NewAction) : (w.insert new).Knows a := by
  obtain ⟨b, hb, hrest⟩ := h
  exact ⟨b, mem_cons_of_mem _ hb, hrest⟩

theorem World.Knows.mark (h : w.Knows a) (id : ActionId) (state : EnforcementState)
    (error : Option String) : (w.mark id state error).Knows a := by
  obtain ⟨b, hb, hid, htarget⟩ := h
  by_cases hbid : b.id = id
  · exact ⟨_, mem_mark.mpr ⟨b, hb, .inr ⟨hbid, rfl⟩⟩, hid, htarget⟩
  · exact ⟨b, mem_mark.mpr ⟨b, hb, .inl ⟨hbid, rfl⟩⟩, hid, htarget⟩

/-- The others leave the call and what it owns alone, and they keep the rows. -/
structure Rely (lists : Bool) (i : ThreadId) (s s' : Net) : Prop where
  calls : ∀ c, (i, c) ∈ s'.calls ↔ (i, c) ∈ s.calls
  knows : ∀ a, s.world.Knows a → s'.world.Knows a
  device : lists = true → ∀ c, (i, c) ∈ s.calls →
    OwnKept c.target (s.world.devices c.target.switch) (s'.world.devices c.target.switch)

theorem Rely.refl (lists : Bool) (i : ThreadId) (s : Net) : Rely lists i s s :=
  ⟨fun _ => Iff.rfl, fun _ ha => ha, fun _ _ _ => .refl _ _⟩

theorem Rely.trans (h : Rely lists i s s') (h' : Rely lists i s' s'') : Rely lists i s s'' where
  calls c := (h'.calls c).trans (h.calls c)
  knows a ha := h'.knows a (h.knows a ha)
  device hl c hc := (h.device hl c hc).trans (h'.device hl c ((h.calls c).mpr hc))

def rules (lists : Bool) : Rules ThreadId Net Op where
  inv s := Wf lists s.world s.calls
  pre := pre lists
  rely := Rely lists
  guar i s s' := ∀ j ≠ i, Rely lists j s s'
  rely_refl := Rely.refl lists
  rely_trans := Rely.trans
  rely_of_guar hij _ _ h := h _ hij.symm

variable {op : Op} {c : Choice} {r : Resp op}

theorem net_of_exec (h : Net.exec i op c s = some (s', r)) :
    s' = { s.track i op c r with world := (exec op c s.world).1, clock := s.clock + 1 } := by
  obtain ⟨hs', rfl⟩ := Prod.mk.inj (Option.some.inj h)
  exact hs'.symm

theorem world_of_exec
    (h : Net.exec i op c s = some (s', r)) : s'.world = (exec op c s.world).1 := by
  rw [net_of_exec h]

theorem answer_of_exec (h : Net.exec i op c s = some (s', r)) : r = (exec op c s.world).2 :=
  (Prod.mk.inj (Option.some.inj h)).2.symm

theorem calls_of_exec
    (h : Net.exec i op c s = some (s', r)) : s'.calls = (s.track i op c r).calls := by
  rw [net_of_exec h]

theorem mem_others_iff (e : ThreadId × Call) (h : e.1 ≠ i) : e ∈ others i calls ↔ e ∈ calls :=
  mem_others.trans (and_iff_left h)

theorem mem_cons_others_iff (e : ThreadId × Call) (h : e.1 ≠ i) :
    e ∈ (i, call) :: others i calls ↔ e ∈ calls := by
  rw [mem_cons, mem_others_iff e h, or_iff_right]
  rintro rfl
  exact h rfl

theorem not_samePort_of_findInEffect (h : w.findInEffect t.switch t.ifIndex = none)
    (ha : a ∈ w.actions) (heff : a.state.isInEffect) : ¬ t.SamePort a.target := by
  intro hport
  have hnot := find?_eq_none.mp h a ha
  rw [Action.inEffectOn, decide_eq_true_eq] at hnot
  exact hnot ⟨hport.1.symm, hport.2.symm, heff⟩

theorem inEffect_of_mark (h : Wf lists s.world s.calls)
    (hpre : pre lists i (.markReverted id state error) s)
    (hok : Orderly lists i (.markReverted id state error) c s) : s.world.InEffect id := by
  by_cases hin : ∃ call, (i, call) ∈ s.calls
  · obtain ⟨call, hcall⟩ := hin
    obtain ⟨a, ha, haid, -, haeff⟩ := h.releasing hcall (hpre.1 call hcall)
    exact ⟨a, ha, haid, haeff⟩
  · exact hok.2 fun e he hei => hin ⟨e.2, hei ▸ he⟩

/-- What a step of an orderly run does. -/
inductive Stepped (lists : Bool) (i : ThreadId) (s : Net) : Net → Prop
  | read (readAt : ThreadId → Option ℕ)
      (hread : ∀ j t, readAt j = some t → s.readAt j = some t ∨ t = s.clock) :
      Stepped lists i s { s with readAt := readAt, clock := s.clock + 1 }
  | enter (call : Call) (hcall : Entering lists i s call) :
      Stepped lists i s { s.enter i call with clock := s.clock + 1 }
  | leave (reverted : List ActionId) (hreverted : lists → reverted = s.reverted)
      (hi : ∀ c a, (i, c) ∈ s.calls → a ∈ s.world.actions → a.state = .active →
        lists → ¬ c.target.SamePort a.target) :
      Stepped lists i s { s.leave i with reverted := reverted, clock := s.clock + 1 }
  | insert (new : NewAction) (hpre : pre lists i (.create new) s) :
      Stepped lists i s { s.leave i with
        world := s.world.insert new
        origin := Function.update s.origin s.world.nextId (some (s.readAt i, s.changedAt i))
        clock := s.clock + 1 }
  | mark (id : ActionId) (state : EnforcementState) (error : Option String)
      (hpre : pre lists i (.markReverted id state error) s) (hrow : s.world.InEffect id) :
      Stepped lists i s { s.leave i with
        world := s.world.mark id state error
        reverted := if state = .reverted then id :: s.reverted else s.reverted
        clock := s.clock + 1 }
  | write (switch : SwitchId) (oid : Oid) (value : OwnedValue)
      (hpre : pre lists i (.set switch oid value) s) :
      Stepped lists i s { s with
        world := s.world.write switch oid value
        changedAt := Function.update s.changedAt i (some ((s.changedAt i).getD s.clock))
        late := s.lateOf i ++ s.late
        clock := s.clock + 1 }

theorem stepped_of_exec (h : Wf lists s.world s.calls)
    (hpre : pre lists i op s) (hok : Orderly lists i op c s)
    (hexec : Net.exec i op c s = some (s', r)) : Stepped lists i s s' := by
  have hr := answer_of_exec hexec
  obtain rfl := net_of_exec hexec
  cases op with
  | enforcementEnabled | now | findById | listDue | connect | walkBasePorts =>
    exact .read s.readAt fun _ _ => .inl
  | get =>
    simp only [track]
    split_ifs
    · refine .read _ fun j t ht => ?_
      rcases eq_or_ne j i with rfl | hne
      · exact .inr (Option.some.inj ((Function.update_self j _ _).symm.trans ht)).symm
      · exact .inl ((Function.update_of_ne hne ..).symm.trans ht)
    · exact .read s.readAt fun _ _ => .inl
  | quarantineVlan =>
    obtain ⟨call, hcall, haction⟩ := hpre
    simp only [track]
    split_ifs
    · exact .leave s.reverted (fun _ => rfl)
        fun c a hc ha hstate _ => h.not_samePort hcall haction hc ha hstate
    · exact .read s.readAt fun _ _ => .inl
  | findInEffect target =>
    rcases r with e | _ | a
    · exact .read s.readAt fun _ _ => .inl
    · have hnone := (acks_of_report hr.symm).2.symm
      refine .enter _ ⟨hpre, hok hnone, fun _ a ha heff => ?_, by simp⟩
      exact not_samePort_of_findInEffect hnone ha heff
    · exact .read s.readAt fun _ _ => .inl
  | findSwitch =>
    obtain ⟨hout, b, hb, hbid, htarget⟩ := hpre
    obtain ⟨⟨a, ha, haid, heff⟩, hfree⟩ := hok
    rcases r with e | found
    · exact .read s.readAt fun _ _ => .inl
    · refine .enter _ ⟨hout, hfree, by simp, fun id hid => ?_⟩
      obtain rfl := h.ids b hb a ha (hbid.trans haid.symm)
      exact ⟨b, hb, hbid.trans (Option.some.inj hid), htarget, heff⟩
  | create new =>
    by_cases htakes : c.takes
    · simp only [track, exec, if_pos htakes]
      exact .insert new hpre
    · obtain ⟨call, hcall, haction, -⟩ := hpre
      simp only [track, exec, if_neg htakes]
      exact .leave s.reverted (fun _ => rfl)
        fun c a hc ha hstate _ => h.not_samePort hcall haction hc ha hstate
  | markReverted id state error =>
    by_cases htakes : c.takes
    · simp only [track, exec, if_pos htakes]
      exact .mark id state error hpre (inEffect_of_mark h hpre hok)
    · simp only [track, exec, if_neg htakes]
      exact .leave _ (fun hl => absurd (hok.1 hl) htakes)
        fun c a hc ha hstate hl => absurd (hok.1 hl) htakes
  | set switch oid value =>
    by_cases htakes : c.takes
    · simp only [track, exec, if_pos htakes]
      exact .write switch oid value hpre
    · simp only [track, exec, if_neg htakes]
      exact .read s.readAt fun _ _ => .inl

theorem Stepped.knows (hstep : Stepped lists i s s') (ha : s.world.Knows a) : s'.world.Knows a := by
  cases hstep with
  | read | enter | leave | write => exact ha
  | insert new => exact ha.insert new
  | mark id state error => exact ha.mark id state error

theorem Stepped.wf (hstep : Stepped lists i s s') (h : Wf lists s.world s.calls) :
    Wf lists s'.world s'.calls := by
  cases hstep with
  | read => exact h
  | enter call hcall => exact h.enter hcall
  | leave _ _ hi => exact h.others hi
  | insert _ hpre => exact h.insert hpre
  | mark _ _ _ hpre hrow => exact h.mark hpre hrow
  | write _ _ _ hpre =>
    obtain ⟨_, hc, rfl, hedit⟩ := hpre
    exact h.write hc hedit

theorem Stepped.rely (hstep : Stepped lists i s s') (h : Wf lists s.world s.calls) {j : ThreadId}
    (hj : j ≠ i) : Rely lists j s s' := by
  refine ⟨fun c => ?_, fun a => hstep.knows, fun hl c hc => ?_⟩
  · cases hstep with
    | read | write => exact .rfl
    | enter => exact mem_cons_others_iff _ hj
    | leave | insert | mark => exact mem_others_iff _ hj
  · cases hstep with
    | read | enter | leave | insert | mark => exact .refl _ _
    | write _ _ _ hpre =>
      obtain ⟨_, hcall, rfl, hedit⟩ := hpre
      exact (hedit hl).ownKept (hl ▸ h.apart hcall hc hj.symm)

end Abyssal.Panopticon
