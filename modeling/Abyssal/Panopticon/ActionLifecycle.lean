import Abyssal.Panopticon.OrderlyCalls

/-!
# The lifecycle of an action

A release works on a copy of an action that was read earlier, and its update does not ask for the
state of the row.

## Main results

* `lifecycle_of_orderly`: an orderly run whose updates succeed keeps to the `Lifecycle`.
-/

namespace Abyssal.Panopticon

open Resumption List

variable {lists : Bool} {i : ThreadId} {s s' : Net}

def InProgress (P : CallPool) (a : Action) : Prop :=
  ∃ i job op k c, P.threads i = some ⟨job, .call op k⟩ ∧ (i, c) ∈ P.shared.calls ∧
    c.target.SamePort a.target

/-- Actions stay reverted or failed, reverts succeeded at most once and were not written after that,
and the ports with active actions are in the enforced state unless a call on them is in progress. -/
structure Lifecycle (hasKey : Bool) (ok : ThreadId → Op → Choice → Net → Prop)
    (P : CallPool) : Prop where
  final : ∀ P', Reach (code hasKey) Net.exec ok P P' → ∀ a ∈ P.shared.world.actions,
    a.state = .reverted ∨ a.state = .applyFailed →
    ∃ a' ∈ P'.shared.world.actions, a'.id = a.id ∧ a'.state = a.state
  once : P.shared.reverted.Nodup
  late : P.shared.late = []
  enforced : ∀ a ∈ P.shared.world.actions, a.state = .active → ¬ InProgress P a →
    a.Enforced ((P.shared.world.devices a.switchId).port a.ifIndex)

/-! ### Final states -/

/-- A row in a final state, whatever else happens to it. -/
def World.Has (w : World) (id : ActionId) (state : EnforcementState) : Prop :=
  ∃ a ∈ w.actions, a.id = id ∧ a.state = state

variable {id : ActionId}

theorem World.Has.stepped {state : EnforcementState} (h : s.world.Has id state)
    (hs : Wf lists s.world s.calls) (hstate : state.isInEffect = false)
    (hstep : Stepped lists i s s') : s'.world.Has id state := by
  obtain ⟨a, ha, haid, hastate⟩ := h
  cases hstep with
  | read | enter | leave | write => exact ⟨a, ha, haid, hastate⟩
  | insert => exact ⟨a, mem_cons_of_mem _ ha, haid, hastate⟩
  | mark id' _ _ _ hrow =>
    obtain ⟨b, hb, hbid, hbeff⟩ := hrow
    have hne : a.id ≠ id' := by
      intro hid
      obtain rfl := hs.ids a ha b hb (hid.trans hbid.symm)
      rw [hastate, hstate] at hbeff
      simp at hbeff
    exact ⟨a, World.mem_mark.mpr ⟨a, ha, .inl ⟨hne, rfl⟩⟩, haid, hastate⟩

/-! ### Reverts succeed once -/

structure Once (s : Net) : Prop where
  nodup : s.reverted.Nodup
  late : s.late = []
  bound : ∀ id ∈ s.reverted, id < s.world.nextId
  state : ∀ a ∈ s.world.actions, a.id ∈ s.reverted → a.state = .reverted

theorem once_new (w : World) : Once (.new w) := by
  constructor <;> simp [Net.new]

theorem Once.not_mem_of_inEffect (h : Once s) (heff : s.world.InEffect id) : id ∉ s.reverted := by
  obtain ⟨a, ha, rfl, hstate⟩ := heff
  intro hmem
  rw [h.state a ha hmem] at hstate
  simp [EnforcementState.isInEffect] at hstate

theorem Once.lateOf_eq_nil (h : Once s) (hs : Wf lists s.world s.calls) : s.lateOf i = [] := by
  refine filterMap_eq_nil_iff.mpr fun e he => ?_
  split_ifs with hei
  · cases hact : e.2.action with
    | none => rfl
    | some =>
      obtain ⟨a, ha, haid, -, haeff⟩ := hs.releasing he hact
      have hnot := h.not_mem_of_inEffect ⟨a, ha, haid, haeff⟩
      simp [hnot]
  · rfl

theorem Once.of_eq (h : Once s) (hreverted : s'.reverted = s.reverted) (hlate : s'.late = s.late)
    (hbound : s.world.nextId ≤ s'.world.nextId)
    (hactions : ∀ a ∈ s'.world.actions, a.id ∈ s.reverted → a ∈ s.world.actions) : Once s' where
  nodup := hreverted ▸ h.nodup
  late := hlate.trans h.late
  bound id hid := (h.bound id (hreverted ▸ hid)).trans_le hbound
  state a ha hid := h.state a (hactions a ha (hreverted ▸ hid)) (hreverted ▸ hid)

theorem Once.stepped (h : Once s) (hs : Wf true s.world s.calls) (hstep : Stepped true i s s') :
    Once s' := by
  cases hstep with
  | read | enter => exact h.of_eq rfl rfl le_rfl fun _ ha _ => ha
  | leave _ hreverted => exact h.of_eq (hreverted rfl) rfl le_rfl fun _ ha _ => ha
  | insert =>
    refine h.of_eq rfl rfl (Nat.le_succ _) fun a ha hid => ?_
    rcases mem_cons.mp ha with rfl | ha
    · exact absurd (h.bound _ hid) (lt_irrefl _)
    · exact ha
  | write =>
    rw [h.lateOf_eq_nil hs]
    exact h.of_eq rfl rfl le_rfl fun _ ha _ => ha
  | mark _ state _ _ hrow =>
    have hnew := h.not_mem_of_inEffect hrow
    by_cases hstate : state = .reverted
    · simp only [if_pos hstate]
      refine ⟨nodup_cons.mpr ⟨hnew, h.nodup⟩, h.late, fun id' hid' => ?_, fun a' ha' hid' => ?_⟩
      · rcases mem_cons.mp hid' with rfl | hid'
        · obtain ⟨a, ha, rfl, -⟩ := hrow
          exact hs.bound a ha
        · exact h.bound id' hid'
      · obtain ⟨a, ha, ⟨hne, rfl⟩ | ⟨-, rfl⟩⟩ := World.mem_mark.mp ha'
        · rcases mem_cons.mp hid' with hid | hid
          · exact absurd hid hne
          · exact h.state a' ha hid
        · exact hstate
    · simp only [if_neg hstate]
      refine h.of_eq rfl rfl le_rfl fun a' ha' hid' => ?_
      obtain ⟨a, ha, ⟨hne, rfl⟩ | ⟨hid, rfl⟩⟩ := World.mem_mark.mp ha'
      · exact ha
      · exact absurd (hid ▸ hid') hnew

/-! ### The lifecycle -/

/-- The lifecycle is kept in every run in which calls start only while none gets in their way,
releases only while their action is in effect, and their updates take effect. -/
theorem lifecycle_of_orderly {hasKey : Bool} {w : World} (hw : w.Ready true)
    {P : CallPool} (h : Reaches hasKey (Orderly true) w P) : Lifecycle hasKey (Orderly true) P := by
  have hholds := holds_of_reaches hw h
  have honce := (Rules.inv_of_pre (fun _ => holds_of_reaches hw) (fun _ _ _ _ hok => hok)
    (fun i op c s s' r hs hpre hI hok hexec => hI.stepped hs (stepped_of_exec hs hpre hok hexec))
    .refl (once_new w) h).2
  refine ⟨fun P' hP' a ha hstate => ?_, honce.nodup, honce.late, fun a ha hactive hno => ?_⟩
  · have hfinal : a.state.isInEffect = false := by
      rcases hstate with hstate | hstate <;> rw [hstate] <;> rfl
    exact (Rules.inv_of_pre (I := fun s => s.world.Has a.id a.state)
      (fun _ => holds_of_reaches hw) (fun _ _ _ _ hok => hok)
      (fun i op c s s' r hs hpre hI hok hexec =>
        hI.stepped hs hfinal (stepped_of_exec hs hpre hok hexec)) h
      ⟨a, ha, rfl, rfl⟩ hP').2
  · -- a thread with a call in progress is not finished
    refine hholds.inv.enforced rfl a ha hactive fun e he hport => ?_
    rcases hi : P.threads e.1 with _ | ⟨job, u | ⟨op, k⟩⟩
    · exact hholds.idle e.1 hi e he rfl
    · exact hholds.post_of_ret hi e he rfl
    · exact hno ⟨e.1, job, op, k, e.2, hi, he, hport⟩

def timedRequest : EnforceRequest := { portRequest .disable with timeoutMinutes := 30 }

def disableForHalfAnHour (i : ThreadId) : List (Event ThreadId Job Choice) :=
  [.start i (.apply timedRequest), .run i (.flag true), .run i .done, .run i (.number 43200),
    .run i .done, .run i .done, .run i .done, .run i .done]

def listAtOne (i : ThreadId) : List (Event ThreadId Job Choice) :=
  [.start i .sweep, .run i (.number 46800), .run i .done]

def releasePort (i : ThreadId) : List (Event ThreadId Job Choice) :=
  [.run i .done, .run i .done, .run i .done, .run i .done]

theorem lifecycle_of_orderly_sweep :
    ∃ P, Reaches true (Orderly true) onePortWorld P ∧
      P.shared.world.actions.map (·.state) = [.active, .reverted] ∧ P.shared.reverted = [0] ∧
      Lifecycle true (Orderly true) P := by
  obtain ⟨P, hP, hstates, hreverted⟩ : ∃ P, Reaches true (Orderly true) onePortWorld P ∧
      P.shared.world.actions.map (·.state) = [.active, .reverted] ∧ P.shared.reverted = [0] :=
    exists_reach_of_fires
      (disableForHalfAnHour 1 ++ listAtOne 2 ++ releasePort 2 ++ disablePort 3) (by decide)
  exact ⟨P, hP, hstates, hreverted, lifecycle_of_orderly (ready_onePortWorld true) hP⟩

/-- The sweep has listed the action; an operator releases it and disables the port again; then the
sweep brings the port up. -/
theorem not_lifecycle_of_stale_sweep :
    ¬ ∀ hasKey w P, w.Ready true → Reaches hasKey (fun _ _ _ _ => True) w P →
      Lifecycle hasKey (fun _ _ _ _ => True) P := by
  intro h
  obtain ⟨P, hP, hcalls, a, ha, hactive, hkind, hup⟩ :
      ∃ P, Reaches true (fun _ _ _ _ => True) onePortWorld P ∧ P.shared.calls = [] ∧
        ∃ a ∈ P.shared.world.actions, a.state = .active ∧ a.kind = .disable ∧
          (P.shared.world.devices a.switchId).objects (.adminStatus a.ifIndex) =
            some (.integer ifAdminUp) :=
    exists_reach_of_fires (disableForHalfAnHour 1 ++ listAtOne 2 ++
      [.start 3 (.release 0), .run 3 .done] ++ releasePort 3 ++ disablePort 4 ++ releasePort 2)
      (by decide)
  have hidle : ¬ InProgress P a := by
    rintro ⟨_, _, _, _, _, -, hc, -⟩
    simp [hcalls] at hc
  have henforced := (h true onePortWorld P (ready_onePortWorld true) hP).enforced a ha hactive hidle
  rw [NewAction.Enforced, hkind] at henforced
  have hdown := hup.symm.trans henforced
  cases hdown

end Abyssal.Panopticon
