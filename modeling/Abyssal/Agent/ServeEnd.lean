import Abyssal.Agent.Serve

/-!
# The end of a connection

What arrived on a connection and was not started is not to be started once the connection has ended.
The loop sets a flag when it ends with a Close frame or the end of the stream, and the writer when
it fails to send. But when reading fails, the flag stays as it is.

## Main results

* `not_startsLate_of_reached`: when nothing starts late.
-/

namespace Abyssal.Agent.Transport

open Option Table

variable {Operation Outcome : Type} {runsConcurrently : Operation → Bool}
  {s s' : Process Operation Outcome} {e : Event Operation Outcome} {c n : ℕ}
  {t : Task Operation Outcome}

def Phase.waiting : Phase Outcome → Bool
  | .queued => true
  | .spawned => true
  | .slotWait => true
  | .slotHeld => true
  | .gateWait => true
  | .entered => true
  | _ => false

variable (s)

def Idle (c : ℕ) : Prop :=
  ∀ n t, s.tasks n = some t → t.conn = c → t.phase.waiting = false

/-- Reading fails only on connections that are marked as closed or idle. -/
def CleanExit : Event Operation Outcome → Prop
  | .readError c => ∀ conn, s.connections c = some conn → conn.closed = true ∨ Idle s c
  | _ => True

def Ended (c : ℕ) : Prop :=
  ∃ conn, s.connections c = some conn ∧ (conn.serving = false ∨ conn.closed = true)

/-- An operation that was not started when its connection had ended is started later. -/
def StartsLate (s s' : Process Operation Outcome) : Prop :=
  ∃ n t, s'.tasks n = some t ∧ Ended s t.conn ∧ n ∉ s.started ∧ n ∈ s'.started

def Sealed (c : ℕ) : Prop :=
  ∃ conn, s.connections c = some conn ∧
    (conn.closed = true ∨ conn.serving = false ∧ Idle s c)

/-! ### Connections -/

private theorem release_closed (conn : Connection Outcome) (n : ℕ) (alone : Bool) :
    (conn.release n alone).closed = conn.closed ∧
      (conn.release n alone).serving = conn.serving := by
  cases alone <;> exact ⟨rfl, rfl⟩

variable {conn : Connection Outcome}

theorem Turn.quiet {conn' : Connection Outcome} {gate gate' : Lock.Fair (ℕ × Bool)}
    {phase : Phase Outcome} {starts : Bool}
    (h : Turn runsConcurrently n t conn gate phase conn' gate' starts) :
    conn'.closed = conn.closed ∧ conn'.serving = conn.serving ∧
      (phase.waiting → t.phase.waiting) := by
  have hnot : ∀ {p : Phase Outcome}, p.waiting = false → p.waiting → t.phase.waiting :=
    fun hp hp' => nomatch (hp.symm.trans hp')
  cases h with
  | discard | start | finish => exact ⟨rfl, rfl, hnot rfl⟩
  | take _ hphase | askSlot hphase | enterSlot _ hphase | askGate hphase | enterGate _ hphase =>
    exact ⟨rfl, rfl, fun _ => hphase ▸ rfl⟩
  | drop | lose =>
    have h := release_closed conn n (t.alone runsConcurrently)
    exact ⟨h.1, h.2, hnot rfl⟩
  | answer outcome =>
    have h := release_closed (conn.push (.response n t.requestId outcome)) n
      (t.alone runsConcurrently)
    exact ⟨h.1, h.2, hnot rfl⟩

variable {s}

theorem Effect.connections (he : Effect runsConcurrently e s s')
    (hc : s.connections c = some conn) :
    ∃ conn', s'.connections c = some conn' ∧ Fades e c conn conn' := by
  -- the connection that is changed, and the others
  have hset : ∀ c' conn₀ conn₁, s.connections c' = some conn₀ → Fades e c' conn₀ conn₁ →
      ∃ conn', Function.update s.connections c' (some conn₁) c = some conn' ∧
        Fades e c conn conn' := by
    intro c' conn₀ conn₁ hc' hfades
    by_cases hcc : c = c'
    · subst hcc
      cases hc.symm.trans hc'
      exact ⟨conn₁, update_eq_some.2 (.inl ⟨rfl, rfl⟩), hfades⟩
    · exact ⟨conn, update_eq_some.2 (.inr ⟨hcc, hc⟩), id, id, .inl⟩
  cases he with
  | same => exact ⟨conn, hc, id, id, .inl⟩
  | connect _ hc' => exact ⟨conn, update_of_eq_some hc' hc _, id, id, .inl⟩
  | quiet c' conn₀ conn₁ hc' hquiet | spawn c' conn₀ conn₁ _ hc' hquiet
  | enqueue c' conn₀ conn₁ _ hc' hquiet =>
    exact hset c' conn₀ conn₁ hc' ⟨hquiet.closed, hquiet.serving, hquiet.ended⟩
  | turn _ t conn₀ conn₁ _ _ _ _ hc' hturn =>
    obtain ⟨hclosed, hserving, -⟩ := hturn.quiet
    exact hset t.conn conn₀ conn₁ hc'
      ⟨hclosed.trans, hserving.symm.trans, fun h => .inl (hserving ▸ h)⟩

theorem Idle.step (h : Idle s c) (he : Effect runsConcurrently e s s')
    (hc : s.connections c = some conn) (hserving : conn.serving = false) : Idle s' c := by
  intro n t ht htc
  cases he with
  | same | connect | quiet => exact h n t ht htc
  | spawn _ _ _ _ hc' _ hserving' ht' | enqueue _ _ _ _ hc' _ hserving' ht' =>
    rcases update_eq_some.1 ht with ⟨-, rfl⟩ | ⟨-, ht⟩
    · rw [← ht', htc, hc] at hc'
      rw [← some.inj hc', hserving] at hserving'
      cases hserving'
    · exact h n t ht htc
  | turn m t' _ _ _ _ _ ht' _ hturn =>
    rcases update_eq_some.1 ht with ⟨-, rfl⟩ | ⟨-, ht⟩
    · rw [← Bool.not_eq_true]
      intro hwaiting
      cases (h m t' ht' htc).symm.trans (hturn.quiet.2.2 hwaiting)
    · exact h n t ht htc

theorem Sealed.step (h : Sealed s c) (he : Effect runsConcurrently e s s') : Sealed s' c := by
  obtain ⟨_, hc, hsealed⟩ := h
  obtain ⟨conn', hc', hfades⟩ := he.connections hc
  refine ⟨conn', hc', ?_⟩
  rcases hsealed with hsealed | ⟨hended, hidle⟩
  · exact .inl (hfades.closed hsealed)
  · refine .inr ⟨?_, hidle.step he hc hended⟩
    rw [← Bool.not_eq_true]
    intro hagain
    cases hended.symm.trans (hfades.serving hagain)

theorem Sealed.mem_started (h : Sealed s c) (hs : Numbered s) (he : Effect runsConcurrently e s s')
    (ht : s'.tasks n = some t) (htc : t.conn = c) (hn : n ∈ s'.started) : n ∈ s.started := by
  rcases he.mem_started hn with hn | ⟨t₀, conn₀, ht₀, hc₀, hphase, hopen⟩
  · exact hn
  · obtain ⟨_, ht'⟩ := he.tasks_of_some hs ht₀
    rw [ht] at ht'
    cases ht'
    obtain ⟨_, hc, hsealed⟩ := h
    rw [← htc, hc₀] at hc
    cases hc
    rcases hsealed with hclosed | ⟨-, hidle⟩
    · cases hopen.symm.trans hclosed
    · have hwaiting := hidle n t₀ ht₀ htc
      rw [hphase] at hwaiting
      cases hwaiting

/-! ### Runs -/

/-- The loops that have ended left their connections sealed. -/
def ExitsSealed (s : Process Operation Outcome) : Prop :=
  ∀ c conn, s.connections c = some conn → conn.serving = false → Sealed s c

theorem Effect.serving_of_none (he : Effect runsConcurrently e s s') (hc : s.connections c = none)
    (hc' : s'.connections c = some conn) : conn.serving := by
  have hset : ∀ c' conn₀ conn₁, s.connections c' = some conn₀ →
      Function.update s.connections c' (some conn₁) c = some conn → conn.serving := by
    intro c' conn₀ conn₁ hc₀ hupdate
    rcases update_eq_some.1 hupdate with ⟨rfl, -⟩ | ⟨-, hsome⟩
    · cases hc.symm.trans hc₀
    · cases hc.symm.trans hsome
  cases he with
  | same => cases hc.symm.trans hc'
  | connect =>
    rcases update_eq_some.1 hc' with ⟨-, rfl⟩ | ⟨-, hsome⟩
    · rfl
    · cases hc.symm.trans hsome
  | quiet c' conn₀ conn₁ hc₀ | spawn c' conn₀ conn₁ _ hc₀ | enqueue c' conn₀ conn₁ _ hc₀ =>
    exact hset c' conn₀ conn₁ hc₀ hc'
  | turn _ t conn₀ conn₁ _ _ _ _ hc₀ => exact hset t.conn conn₀ conn₁ hc₀ hc'

private theorem step_readError_tasks (s : Process Operation Outcome) (c : ℕ) :
    (step runsConcurrently s (.readError c)).tasks = s.tasks := by
  rw [step]
  split
  · split_ifs <;> rfl
  · rfl

theorem ExitsSealed.step (h : ExitsSealed s) (hok : CleanExit s e) :
    ExitsSealed (step runsConcurrently s e) := by
  intro c conn' hc' hended
  have he : Effect runsConcurrently e s (Transport.step runsConcurrently s e) := effect_step s e
  cases hc : s.connections c with
  | none => cases hended.symm.trans (he.serving_of_none hc hc')
  | some conn =>
    obtain ⟨_, hc₁, hfades⟩ := he.connections hc
    rw [hc'] at hc₁
    cases hc₁
    rcases hfades.ended hended with hbefore | hmarked | rfl
    · exact (h c conn hc hbefore).step he
    · exact ⟨conn', hc', .inl hmarked⟩
    · refine ⟨conn', hc', ?_⟩
      rcases hok conn hc with hmarked | hidle
      · exact .inl (hfades.closed hmarked)
      · refine .inr ⟨hended, ?_⟩
        rwa [Idle, step_readError_tasks]

theorem Sealed.started_of_reaches (h : Sealed s c) (hs : Numbered s)
    (hreach : Reaches runsConcurrently s s') :
    Numbered s' ∧ Sealed s' c ∧
      ∀ n t, s'.tasks n = some t → t.conn = c → n ∈ s'.started → n ∈ s.started := by
  induction hreach with
  | start => exact ⟨hs, h, fun _ _ _ _ hn => hn⟩
  | @next s₁ e hreach _ ih =>
    obtain ⟨hs₁, hsealed, hstarted⟩ := ih
    have he : Effect runsConcurrently e s₁ (Transport.step runsConcurrently s₁ e) :=
      effect_step s₁ e
    refine ⟨hs₁.step he, hsealed.step he, fun n t ht htc hn => ?_⟩
    have hbefore := hsealed.mem_started hs₁ he ht htc hn
    obtain ⟨t₁, ht₁⟩ := hs₁.started n hbefore
    obtain ⟨phase, ht'⟩ := he.tasks_of_some hs₁ ht₁
    rw [ht] at ht'
    cases ht'
    exact hstarted n t₁ ht₁ htc hbefore

/-- Where reading fails only on connections that are marked as closed or idle, no operation is
started after its connection has ended. -/
theorem not_startsLate_of_reached (h : Machine.Reached (step runsConcurrently) CleanExit .initial s)
    (hreach : Reaches runsConcurrently s s') : ¬ StartsLate s s' := by
  rintro ⟨n, t, ht, hended, hbefore, hafter⟩
  have hexits : ExitsSealed s := by
    refine h.inv ?_ fun s e hs hok => hs.step hok
    exact nofun
  have hsealed : Sealed s t.conn := by
    obtain ⟨conn, hc, hserving | hclosed⟩ := hended
    · exact hexits t.conn conn hc hserving
    · exact ⟨conn, hc, .inl hclosed⟩
  have hnumbered : Numbered s := h.inv numbered_initial fun s e hs _ => hs.step (effect_step s e)
  exact hbefore ((hsealed.started_of_reaches hnumbered hreach).2.2 n t ht rfl hafter)

/-! ### Two commands on one connection -/

def runningAndWaiting (second : Bool) : List (Event Bool Unit) :=
  [.connect 0, .receive 0 (.command 10 false), .receive 0 (.command 11 second),
    .advance 0 (), .advance 0 (), .advance 0 ()]

def afterwards : List (Event Bool Unit) :=
  .advance 0 () :: .advance 0 () :: List.replicate 5 (.advance 1 ())

theorem not_startsLate_of_reached_hangUp :
    (after (runningAndWaiting true ++ [.hangUp 0])).started = [0] ∧
      ¬ StartsLate (after (runningAndWaiting true ++ [.hangUp 0]))
        (after (runningAndWaiting true ++ [.hangUp 0] ++ afterwards)) := by
  have hclean : ∀ e ∈ runningAndWaiting true ++ [.hangUp 0], ∀ s : Process Bool Unit,
      CleanExit s e := by
    simp [runningAndWaiting, CleanExit]
  refine ⟨by decide +kernel, ?_⟩
  exact not_startsLate_of_reached (Machine.reached_foldl hclean _) (reaches_after _ _)

/-- Reading fails while the second command waits, and it is started when the first one has ended. -/
theorem startsLate_of_readError :
    StartsLate (after (runningAndWaiting false ++ [.readError 0]))
        (after (runningAndWaiting false ++ [.readError 0] ++ afterwards)) ∧
      StartsLate (after (runningAndWaiting true ++ [.readError 0]))
        (after (runningAndWaiting true ++ [.readError 0] ++ afterwards)) := by
  have hended : ∀ second, Ended (after (runningAndWaiting second ++ [.readError 0])) 0 := by
    intro second
    cases second
    all_goals
      refine ⟨_, rfl, .inl ?_⟩
      rfl
  constructor
  · refine ⟨1, ⟨0, 11, false, .answered ()⟩, by decide +kernel, hended false, ?_, ?_⟩
    · decide +kernel
    · decide +kernel
  · refine ⟨1, ⟨0, 11, true, .running⟩, by decide +kernel, hended true, ?_, ?_⟩
    · decide +kernel
    · decide +kernel

end Abyssal.Agent.Transport
