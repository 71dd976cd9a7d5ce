import Abyssal.Table.PartialMap
import Abyssal.Panopticon.OrderlyCalls

/-!
# One action in effect on a port

Two calls on one port can both find no action in effect, and then both change the port and record
their action.

## Main results

* `soleAction_of_orderly`: if no call finds its port free while another call on it is in progress, a
  port has at most one action in effect, and its prior state was read before any such action changed
  the port.
-/

namespace Abyssal.Panopticon

open Resumption Function List

variable {lists : Bool} {i : ThreadId} {s s' : Net}

/-- At most one action is in effect on each port, and none read the prior state after one in effect
now had changed the port. -/
structure SoleAction (s : Net) : Prop where
  single : ∀ a ∈ s.world.actions, ∀ b ∈ s.world.actions, a.state.isInEffect = true →
    b.state.isInEffect = true → a.target.SamePort b.target → a = b
  prior : ∀ a ∈ s.world.actions, ∀ b ∈ s.world.actions, a.id ≠ b.id →
    a.target.SamePort b.target → b.state.isInEffect = true → ∀ read changed x y,
      s.origin a.id = some (some read, x) → s.origin b.id = some (y, some changed) →
      read < changed

/-- The steps at which the calls read and changed their ports. -/
structure Timed (s : Net) : Prop where
  readAt : ∀ i t, s.readAt i = some t → t < s.clock
  origin : ∀ id t x, s.origin id = some (some t, x) → t < s.clock
  applying : ∀ i c, (i, c) ∈ s.calls → c.action = none → ∀ a ∈ s.world.actions,
    c.target.SamePort a.target → ∀ read changed x, s.origin a.id = some (some read, x) →
      s.changedAt i = some changed → read < changed
  prior : ∀ a ∈ s.world.actions, ∀ b ∈ s.world.actions, a.id ≠ b.id →
    a.target.SamePort b.target → b.state.isInEffect = true → ∀ read changed x y,
      s.origin a.id = some (some read, x) → s.origin b.id = some (y, some changed) →
      read < changed

theorem timed_new (w : World) : Timed (.new w) := by
  constructor <;> simp [Net.new]

theorem Timed.of_eq (h : Timed s) (hclock : s.clock ≤ s'.clock)
    (hread : ∀ i t, s'.readAt i = some t → s.readAt i = some t ∨ t < s'.clock)
    (hchanged : ∀ i t, s'.changedAt i = some t → s.changedAt i = some t ∨ s.clock ≤ t)
    (horigin : s'.origin = s.origin)
    (hcalls : ∀ e ∈ s'.calls, e ∈ s.calls ∨ s'.changedAt e.1 = none)
    (hactions : ∀ a' ∈ s'.world.actions, ∃ a ∈ s.world.actions, a'.id = a.id ∧
      a'.target = a.target ∧ (a'.state.isInEffect → a.state.isInEffect)) :
    Timed s' where
  readAt i t ht := by
    rcases hread i t ht with ht | ht
    · exact (h.readAt i t ht).trans_le hclock
    · exact ht
  origin id t x ht := (h.origin id t x (horigin ▸ ht)).trans_le hclock
  applying i c hc hact a' ha' hport read changed x horig hch := by
    obtain ⟨a, ha, hid, htarget, -⟩ := hactions a' ha'
    rw [horigin, hid] at horig
    rcases hchanged i changed hch with hold | hnow
    · rcases hcalls _ hc with hc | hnone
      · exact h.applying i c hc hact a ha (htarget ▸ hport) read changed x horig hold
      · cases hch.symm.trans hnone
    · exact (h.origin _ _ _ horig).trans_le hnow
  prior a' ha' b' hb' hne hport heff read changed x y hx hy := by
    obtain ⟨a, ha, hid, htarget, -⟩ := hactions a' ha'
    obtain ⟨b, hb, hid', htarget', heff'⟩ := hactions b' hb'
    rw [horigin, hid] at hx
    rw [horigin, hid'] at hy
    rw [hid, hid'] at hne
    rw [htarget, htarget'] at hport
    exact h.prior a ha b hb hne hport (heff' heff) read changed x y hx hy

open Nat

theorem Timed.insert {new : NewAction} (h : Timed s) (hs : Wf lists s.world s.calls)
    (hpre : pre lists i (.create new) s) :
    Timed { s.leave i with
      world := s.world.insert new
      origin := update s.origin s.world.nextId (some (s.readAt i, s.changedAt i))
      clock := s.clock + 1 } := by
  obtain ⟨c, hc, haction, htarget, -⟩ := hpre
  have hmem : ∀ {a}, a ∈ (s.world.insert new).actions → a = ⟨new, s.world.nextId⟩ ∨
      a ∈ s.world.actions ∧ ∀ x, update s.origin s.world.nextId x a.id = s.origin a.id := by
    intro a ha
    rcases mem_cons.mp ha with rfl | ha
    · exact .inl rfl
    · exact .inr ⟨ha, fun _ => update_of_ne (hs.bound a ha).ne ..⟩
  refine ⟨fun j t ht => lt_succ_of_lt (h.readAt j t ht), fun id t x ht => lt_succ_of_lt ?_, ?_, ?_⟩
  · rcases Table.update_eq_some.1 ht with ⟨-, ht⟩ | ⟨-, ht⟩
    · exact h.readAt i t (Prod.mk.inj ht).1
    · exact h.origin id t x ht
  · intro j c' hc' hact a ha hport read changed x horig hch
    obtain ⟨hc', hne⟩ := mem_others.mp hc'
    rcases hmem ha with rfl | ⟨ha, hold⟩
    · exact absurd (htarget ▸ hport : c'.target.SamePort c.target).conflicts (hs.apart hc' hc hne)
    · exact h.applying j c' hc' hact a ha hport read changed x ((hold _).symm.trans horig) hch
  · intro a ha b hb hne hport heff read changed x y hx hy
    rcases hmem ha with rfl | ⟨ha, hold⟩ <;> rcases hmem hb with rfl | ⟨hb, hold'⟩
    · exact absurd rfl hne
    · exact absurd (htarget ▸ hport : c.target.SamePort b.target)
        (hs.applying hc haction b hb heff)
    · have hnew := (update_self s.world.nextId _ s.origin).symm.trans hy
      have hch := (Prod.mk.inj (Option.some.inj hnew)).2
      exact h.applying i c hc haction a ha (htarget ▸ hport.symm : c.target.SamePort a.target)
        read changed x ((hold _).symm.trans hx) hch
    · exact h.prior a ha b hb hne hport heff read changed x y ((hold _).symm.trans hx)
        ((hold' _).symm.trans hy)

theorem Timed.stepped (h : Timed s) (hs : Wf lists s.world s.calls)
    (hstep : Stepped lists i s s') : Timed s' := by
  have hothers : others i s.calls ⊆ s.calls := fun e he => (mem_others.mp he).1
  cases hstep with
  | read _ hread =>
    refine h.of_eq (le_succ _) (fun j t ht => ?_) (fun _ _ => .inl) rfl (fun _ => .inl)
      fun a ha => ⟨a, ha, rfl, rfl, id⟩
    rcases hread j t ht with ht | rfl
    · exact .inl ht
    · exact .inr (lt_succ_self _)
  | enter call =>
    have hnone : ∀ (f : ThreadId → Option ℕ) j t, update f i none j = some t → f j = some t := by
      intro f j t ht
      rcases eq_or_ne j i with rfl | hne
      · simp at ht
      · rwa [update_of_ne hne] at ht
    refine h.of_eq (le_succ _) (fun j t ht => .inl (hnone s.readAt j t ht))
      (fun j t ht => .inl (hnone s.changedAt j t ht)) rfl (fun e he => ?_)
      fun a ha => ⟨a, ha, rfl, rfl, id⟩
    rcases mem_cons.mp he with rfl | he
    · simp [Net.enter]
    · exact .inl (hothers he)
  | leave =>
    exact h.of_eq (le_succ _) (fun _ _ => .inl) (fun _ _ => .inl) rfl
      (fun _ he => .inl (hothers he)) fun a ha => ⟨a, ha, rfl, rfl, id⟩
  | insert new hpre => exact h.insert hs hpre
  | mark _ _ _ _ hrow =>
    refine h.of_eq (le_succ _) (fun _ _ => .inl) (fun _ _ => .inl) rfl
      (fun _ he => .inl (hothers he)) fun a' ha' => ?_
    obtain ⟨a, ha, hid, htarget, heff, -⟩ := hs.of_mem_mark hrow ha'
    exact ⟨a, ha, hid, htarget, heff⟩
  | write =>
    refine h.of_eq (le_succ _) (fun _ _ => .inl) (fun j t ht => ?_) rfl (fun _ => .inl)
      fun a ha => ⟨a, ha, rfl, rfl, id⟩
    rcases Table.update_eq_some.1 ht with ⟨rfl, rfl⟩ | ⟨-, ht⟩
    · cases hold : s.changedAt j with
      | none => exact .inr le_rfl
      | some => exact .inl rfl
    · exact .inl ht

/-- Where no call finds its port free while another call on it is in progress, a port has at most
one action in effect, and its prior state was read before that action changed the port. -/
theorem soleAction_of_orderly {hasKey : Bool} {w : World} (hw : w.Consistent)
    {P : CallPool} (h : Reaches hasKey (Orderly false) w P) : SoleAction P.shared := by
  have hready : w.Ready false := ⟨hw, by simp⟩
  have htimed := (Rules.inv_of_pre (fun _ => holds_of_reaches hready) (fun _ _ _ _ hok => hok)
    (fun i op c s s' r hs hpre hI hok hexec => hI.stepped hs (stepped_of_exec hs hpre hok hexec))
    .refl (timed_new w) h).2
  exact ⟨(holds_of_reaches hready h).inv.single, htimed.prior⟩

theorem soleAction_of_orderly_second_call :
    ∃ P, Reaches true (Orderly false) onePortWorld P ∧
      (P.shared.world.actions.map (·.state)) = [.active] ∧ SoleAction P.shared := by
  obtain ⟨P, hP, hstates⟩ : ∃ P, Reaches true (Orderly false) onePortWorld P ∧
      P.shared.world.actions.map (·.state) = [.active] :=
    exists_reach_of_fires (disablePort 1 ++ (disablePort 2).take 3) (by decide)
  exact ⟨P, hP, hstates, soleAction_of_orderly (ready_onePortWorld false).toConsistent hP⟩

/-- Two calls find the port free before either of them records its action. -/
theorem not_soleAction_of_race :
    ¬ ∀ hasKey w P, w.Consistent → Reaches hasKey (fun _ _ _ _ => True) w P →
      SoleAction P.shared := by
  intro h
  obtain ⟨P, hP, a, ha, b, hb, haeff, hbeff, hport, hne⟩ :
      ∃ P, Reaches true (fun _ _ _ _ => True) onePortWorld P ∧
        ∃ a ∈ P.shared.world.actions, ∃ b ∈ P.shared.world.actions,
          a.state.isInEffect ∧ b.state.isInEffect ∧ a.target.SamePort b.target ∧ a ≠ b :=
    exists_reach_of_fires ((disablePort 1).take 3 ++ disablePort 2 ++ (disablePort 1).drop 3)
      (by decide)
  have hsole := h true onePortWorld P (ready_onePortWorld false).toConsistent hP
  exact hne (hsole.single a ha b hb haeff hbeff hport)

end Abyssal.Panopticon
