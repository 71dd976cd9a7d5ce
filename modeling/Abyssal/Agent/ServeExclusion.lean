import Abyssal.Agent.Serve
import Mathlib.Data.List.Perm.Subperm

/-!
# Operations that exclude each other

An operation that has to run alone holds the gate of the process alone while it runs, on whatever
connection it arrived, and the others share it. A connection takes such operations out of its queue
one after the other. If the writer has ended, a response is lost.

## Main results

* `served_of_reaches`: who runs with whom.
* `nodup_started`: no command starts twice.
-/

namespace Abyssal.Agent.Transport

open Lock List Option Function Prod Table Phase

variable {Operation Outcome : Type} {runsConcurrently : Operation → Bool}
  {s s' : Process Operation Outcome} {e : Event Operation Outcome} {c n : ℕ}
  {t : Task Operation Outcome} {conn conn' : Connection Outcome} {gate gate' : Fair (ℕ × Bool)}
  {phase : Phase Outcome} {starts : Bool}

/-! ### The gate -/

def Phase.inGate : Phase Outcome → Bool
  | .entered => true
  | .running => true
  | .responding _ => true
  | _ => false

variable (runsConcurrently) in
structure Gated (s : Process Operation Outcome) : Prop where
  holds : ∀ n t, s.tasks n = some t → t.phase.inGate = true →
    (n, t.alone runsConcurrently) ∈ s.gate.holders
  alone : Alone snd s.gate.holders

variable (h : Turn runsConcurrently n t conn gate phase conn' gate' starts)

include h in
theorem Turn.gated (halone : Alone snd gate.holders)
    (hbefore : t.phase.inGate → (n, t.alone runsConcurrently) ∈ gate.holders) :
    Alone snd gate'.holders ∧ (phase.inGate → (n, t.alone runsConcurrently) ∈ gate'.holders) ∧
      ∀ a ∈ gate.holders, a ≠ (n, t.alone runsConcurrently) → a ∈ gate'.holders := by
  cases h with
  | enterGate _ _ henter =>
    refine ⟨alone_enter henter, ?_⟩
    rw [(Fair.enter_eq_some henter).2]
    exact ⟨fun _ => mem_cons_self, fun _ ha _ => mem_cons_of_mem _ ha⟩
  | start hphase | finish _ hphase =>
    exact ⟨halone, fun _ => hbefore (hphase ▸ rfl), fun _ ha _ => ha⟩
  | drop | answer | lose =>
    exact ⟨alone_release halone _, nofun, fun _ ha hne => Fair.mem_release.2 ⟨ha, hne⟩⟩
  | _ => exact ⟨halone, nofun, fun _ ha _ => ha⟩

theorem Gated.step (h : Gated runsConcurrently s) (he : Effect runsConcurrently e s s') :
    Gated runsConcurrently s' := by
  cases he with
  | same => exact h
  | connect | quiet => exact ⟨h.holds, h.alone⟩
  | spawn _ _ _ _ _ _ _ _ _ hphase | enqueue _ _ _ _ _ _ _ _ _ hphase =>
    refine ⟨forall_update h.holds fun hgate => ?_, h.alone⟩
    simp [hphase, inGate] at hgate
  | turn _ t _ _ _ _ _ ht _ hturn =>
    obtain ⟨halone, hself, hothers⟩ := hturn.gated h.alone (h.holds _ t ht)
    refine ⟨fun n t' ht' hgate => ?_, halone⟩
    rcases update_eq_some.1 ht' with ⟨rfl, rfl⟩ | ⟨hne, ht'⟩
    · exact hself hgate
    · exact hothers _ (h.holds n t' ht' hgate) fun heq => hne (mk.inj heq).1

/-! ### The read slots -/

def Phase.hasSlot : Phase Outcome → Bool
  | .slotHeld => true
  | .gateWait => true
  | .entered => true
  | .running => true
  | .responding _ => true
  | _ => false

def Phase.fits (alone : Bool) : Phase Outcome → Bool
  | .queued => alone
  | .spawned => !alone
  | .slotWait => !alone
  | .slotHeld => !alone
  | _ => true

include h in
theorem Turn.fits (hfits : t.phase.fits (t.alone runsConcurrently)) :
    phase.fits (t.alone runsConcurrently) := by
  cases h with
  | askSlot hphase | enterSlot _ hphase =>
    rwa [hphase] at hfits
  | _ => rfl

variable {m : ℕ}

open Nat

private theorem release_slots (conn : Connection Outcome) (n : ℕ) (alone : Bool) :
    (conn.release n alone).slots.holders.length ≤ conn.slots.holders.length ∧
      ∀ m ∈ conn.slots.holders, m ≠ n → m ∈ (conn.release n alone).slots.holders := by
  cases alone with
  | true => exact ⟨Nat.le_refl _, fun _ hm _ => hm⟩
  | false => exact ⟨length_release _ _, fun _ hm hne => Fair.mem_release.2 ⟨hm, hne⟩⟩

include h in
theorem Turn.slots (hfits : t.phase.fits (t.alone runsConcurrently))
    (hcount : conn.slots.holders.length ≤ maxConcurrentReads) :
    conn'.slots.holders.length ≤ maxConcurrentReads ∧
      (t.alone runsConcurrently = false → (t.phase.hasSlot → n ∈ conn.slots.holders) →
        phase.hasSlot → n ∈ conn'.slots.holders) ∧
      ∀ m ∈ conn.slots.holders, m ≠ n → m ∈ conn'.slots.holders := by
  cases h with
  | take _ hphase =>
    refine ⟨hcount, fun halone => ?_, fun _ hm _ => hm⟩
    rw [hphase, halone] at hfits
    cases hfits
  | enterSlot _ _ henter =>
    refine ⟨length_enter henter, ?_⟩
    rw [(Fair.enter_eq_some henter).2]
    exact ⟨fun _ _ _ => mem_cons_self, fun _ hm _ => mem_cons_of_mem _ hm⟩
  | askGate hphase | enterGate _ hphase | start hphase | finish _ hphase =>
    exact ⟨hcount, fun _ hbefore _ => hbefore (hphase ▸ rfl), fun _ hm _ => hm⟩
  | drop | lose =>
    obtain ⟨hlength, hothers⟩ := release_slots conn n (t.alone runsConcurrently)
    exact ⟨Nat.le_trans hlength hcount, nofun, hothers⟩
  | answer =>
    obtain ⟨hlength, hothers⟩ := release_slots (conn.push _) n (t.alone runsConcurrently)
    exact ⟨Nat.le_trans hlength hcount, nofun, hothers⟩
  | _ => exact ⟨hcount, nofun, fun _ hm _ => hm⟩

/-! ### The queue -/

/-- The task was taken out of the queue and is not over. -/
def Phase.working : Phase Outcome → Bool
  | .gateWait => true
  | .entered => true
  | .running => true
  | .responding _ => true
  | _ => false

def Phase.ended : Phase Outcome → Bool
  | .dropped => true
  | .answered _ => true
  | .unanswered _ => true
  | _ => false

def Phase.launched : Phase Outcome → Bool
  | .running => true
  | .responding _ => true
  | .answered _ => true
  | .unanswered _ => true
  | _ => false

variable (runsConcurrently) in
/-- If both have to run alone and came on one connection, then in this order. -/
def Process.Arrived (s : Process Operation Outcome) (m n : ℕ) : Prop :=
  ∀ t t', s.tasks m = some t → s.tasks n = some t' → t.conn = t'.conn →
    t.alone runsConcurrently = true → t'.alone runsConcurrently = true → m < n

variable (runsConcurrently) in
/-- Nothing is taken out of a queue before all that arrived earlier has ended. -/
structure InOrder (s : Process Operation Outcome) : Prop where
  before : ∀ m n t t', s.tasks m = some t → s.tasks n = some t' → t.conn = t'.conn →
    t.alone runsConcurrently = true → t'.alone runsConcurrently = true → m < n →
    t'.phase ≠ .queued → t.phase.ended = true
  launched : ∀ n t, s.tasks n = some t → (n ∈ s.started ↔ t.phase.launched = true)
  started : s.started.Pairwise (s.Arrived runsConcurrently)

theorem Phase.cases_of_fits {phase : Phase Outcome} (h : phase.fits true) :
    phase = .queued ∨ phase.working ∨ phase.ended := by
  cases phase with
  | queued => exact .inl rfl
  | spawned | slotWait | slotHeld => cases h
  | gateWait | entered | running | responding => exact .inr (.inl rfl)
  | dropped | answered | unanswered => exact .inr (.inr rfl)

include h in
theorem Turn.phases :
    t.phase.ended = false ∧ phase ≠ .queued ∧
      (t.phase ≠ .queued ∨ conn.worker = none ∧ ∃ rest, conn.queue = n :: rest) := by
  cases h with
  | discard rest hphase hworker hqueue | take rest hphase hworker hqueue =>
    rw [hphase]
    exact ⟨rfl, by simp, .inr ⟨hworker, rest, hqueue⟩⟩
  | askSlot hphase | enterSlot _ hphase | askGate hphase | enterGate _ hphase | drop hphase
  | start hphase | finish _ hphase | answer _ hphase | lose _ hphase => simp [hphase, ended]

include h in
theorem Turn.launched :
    (phase.launched ↔ t.phase.launched ∨ starts) ∧ (starts → t.phase = .entered) := by
  cases h with
  | discard _ hphase | take _ hphase | askSlot hphase | enterSlot _ hphase | askGate hphase
  | enterGate _ hphase | drop hphase | start hphase | finish _ hphase | answer _ hphase
  | lose _ hphase => simp [hphase, launched]

private theorem release_queue (conn : Connection Outcome) (n : ℕ) (alone : Bool) :
    (conn.release n alone).queue = conn.queue := by
  cases alone <;> rfl

include h in
theorem Turn.queue : conn'.queue = conn.queue ∨ conn.queue = n :: conn'.queue := by
  cases h with
  | discard _ _ _ hqueue | take _ _ _ hqueue => exact .inr hqueue
  | drop | lose => exact .inl (release_queue _ _ _)
  | answer => exact .inl (release_queue (conn.push _) _ _)
  | _ => exact .inl rfl

private theorem release_worker (conn : Connection Outcome) {alone : Bool}
    (hown : alone → conn.worker = some n) (hne : m ≠ n) (hworker : conn.worker = some m) :
    (conn.release n alone).worker = some m := by
  cases alone with
  | false => exact hworker
  | true => exact absurd (some.inj (hworker.symm.trans (hown rfl))) hne

include h in
theorem Turn.worker (hfits : t.phase.fits (t.alone runsConcurrently))
    (hown : t.alone runsConcurrently → t.phase.working → conn.worker = some n) :
    (t.alone runsConcurrently → phase.working → conn'.worker = some n) ∧
      ∀ m ≠ n, conn.worker = some m → conn'.worker = some m := by
  cases h with
  | take _ _ hnone => exact ⟨fun _ _ => rfl, fun _ _ hworker => nomatch hnone.symm.trans hworker⟩
  | askGate hphase =>
    refine ⟨fun halone => ?_, fun _ _ hworker => hworker⟩
    rw [hphase, halone] at hfits
    cases hfits
  | enterGate _ hphase | start hphase | finish _ hphase =>
    exact ⟨fun halone _ => hown halone (hphase ▸ rfl), fun _ _ hworker => hworker⟩
  | drop hphase | lose _ hphase =>
    exact ⟨nofun, fun _ => release_worker conn fun halone => hown halone (hphase ▸ rfl)⟩
  | answer _ hphase =>
    exact ⟨nofun, fun _ => release_worker (conn.push _) fun halone => hown halone (hphase ▸ rfl)⟩
  | _ => exact ⟨nofun, fun _ _ hworker => hworker⟩

theorem release_responses (conn : Connection Outcome) (n : ℕ) (alone : Bool) :
    (∀ m, (conn.release n alone).responses m = conn.responses m) ∧
      (conn.release n alone).writer = conn.writer := by
  cases alone <;> exact ⟨fun _ => rfl, rfl⟩

include h in
theorem Turn.writer :
    conn'.writer = conn.writer ∧ ∀ outcome, phase = .unanswered outcome → conn.writer = false := by
  cases h with
  | drop =>
    exact ⟨(release_responses _ _ _).2, fun _ hlost => by cases hlost⟩
  | answer =>
    exact ⟨(release_responses (conn.push _) _ _).2, fun _ hlost => by cases hlost⟩
  | lose _ _ hwriter => exact ⟨(release_responses _ _ _).2, fun _ _ => hwriter⟩
  | _ => exact ⟨rfl, fun _ hlost => by cases hlost⟩

/-! ### Tasks and their connections -/

variable (runsConcurrently) in
/-- A task is in a phase that its command goes through, and is in the slots and in the queue of its
connection, and at work for it, as that phase says. -/
structure Linked (n : ℕ) (t : Task Operation Outcome) (conn : Connection Outcome) : Prop where
  fits : t.phase.fits (t.alone runsConcurrently) = true
  slot : t.alone runsConcurrently = false → t.phase.hasSlot = true → n ∈ conn.slots.holders
  queued : t.phase = .queued → n ∈ conn.queue
  working : t.alone runsConcurrently = true → t.phase.working = true → conn.worker = some n
  lost : ∀ outcome, t.phase = .unanswered outcome → conn.writer = false

/-- The queue holds what arrived and was not taken out, in order. -/
structure Orderly (next : ℕ) (conn : Connection Outcome) : Prop where
  count : conn.slots.holders.length ≤ maxConcurrentReads
  sorted : conn.queue.Pairwise (· < ·)
  lt_next : ∀ n ∈ conn.queue, n < next

variable (runsConcurrently) in
structure Tidy (s : Process Operation Outcome) : Prop where
  linked : ∀ n t, s.tasks n = some t →
    ∃ conn, s.connections t.conn = some conn ∧ Linked runsConcurrently n t conn
  orderly : ∀ c conn, s.connections c = some conn → Orderly s.next conn

theorem Linked.quiet (h : Linked runsConcurrently n t conn) (hquiet : Quiet e c conn conn') :
    Linked runsConcurrently n t conn' where
  fits := h.fits
  slot := hquiet.slots ▸ h.slot
  queued := hquiet.queue ▸ h.queued
  working := hquiet.worker ▸ h.working
  lost outcome hlost := Bool.eq_false_iff.2 fun hwriter =>
    Bool.eq_false_iff.1 (h.lost outcome hlost) (hquiet.writer hwriter)

theorem Orderly.quiet (h : Orderly m conn) (hquiet : Quiet e c conn conn') : Orderly m conn' :=
  ⟨hquiet.slots ▸ h.count, hquiet.queue ▸ h.sorted, hquiet.queue ▸ h.lt_next⟩

theorem Orderly.succ (h : Orderly m conn) : Orderly (m + 1) conn :=
  ⟨h.count, h.sorted, fun n hn => lt_succ_of_lt (h.lt_next n hn)⟩

theorem Orderly.enqueue (h : Orderly m conn) :
    Orderly (m + 1) { conn with queue := conn.queue ++ [m] } := by
  refine ⟨h.count, pairwise_append.2 ⟨h.sorted, pairwise_singleton _ _, ?_⟩, fun n hn => ?_⟩
  · intro n hn k hk
    rw [mem_singleton.1 hk]
    exact h.lt_next n hn
  · rcases mem_append.1 hn with hn | hn
    · exact lt_succ_of_lt (h.lt_next n hn)
    · rw [mem_singleton.1 hn]
      exact lt_succ_self _

include h in
theorem Turn.orderly (hconn : Orderly m conn) (hfits : t.phase.fits (t.alone runsConcurrently)) :
    Orderly m conn' := by
  have hsub : conn'.queue.Sublist conn.queue := by
    rcases h.queue with heq | heq
    · rw [heq]
    · rw [heq]
      exact sublist_cons_self _ _
  exact ⟨(h.slots hfits hconn.count).1, hconn.sorted.sublist hsub,
    fun n hn => hconn.lt_next n (hsub.subset hn)⟩

include h in
theorem Turn.linked (hlinked : Linked runsConcurrently n t conn) (hconn : Orderly m conn) :
    Linked runsConcurrently n { t with phase := phase } conn' where
  fits := h.fits hlinked.fits
  slot halone := (h.slots hlinked.fits hconn.count).2.1 halone (hlinked.slot halone)
  queued hqueued := absurd hqueued h.phases.2.1
  working := (h.worker hlinked.fits hlinked.working).1
  lost outcome hlost := h.writer.1 ▸ h.writer.2 outcome hlost

include h in
theorem Turn.others (hlinked : Linked runsConcurrently n t conn) (hconn : Orderly m conn) {k : ℕ}
    {t₁ : Task Operation Outcome} (hne : k ≠ n) (h₁ : Linked runsConcurrently k t₁ conn) :
    Linked runsConcurrently k t₁ conn' where
  fits := h₁.fits
  slot halone hslot := (h.slots hlinked.fits hconn.count).2.2 k (h₁.slot halone hslot) hne
  queued hqueued := by
    have hk := h₁.queued hqueued
    rcases h.queue with heq | heq
    · rwa [heq]
    · rw [heq] at hk
      exact (mem_cons.1 hk).resolve_left hne
  working halone hworking :=
    (h.worker hlinked.fits hlinked.working).2 k hne (h₁.working halone hworking)
  lost outcome hlost := h.writer.1 ▸ h₁.lost outcome hlost

theorem Tidy.link (h : Tidy runsConcurrently s) (ht : s.tasks n = some t)
    (hc : s.connections t.conn = some conn) : Linked runsConcurrently n t conn := by
  obtain ⟨_, hc', hlinked⟩ := h.linked n t ht
  cases hc.symm.trans hc'
  exact hlinked

theorem Tidy.step (h : Tidy runsConcurrently s) (he : Effect runsConcurrently e s s') :
    Tidy runsConcurrently s' := by
  have horderly := fun c conn hc => (h.orderly c conn hc).succ
  cases he with
  | same => exact h
  | connect c hc =>
    have hnone : ∀ conn, s.connections c ≠ some conn := fun _ hr => nomatch hc.symm.trans hr
    exact ⟨linked_update h.linked fun _ hr => absurd hr (hnone _),
      forall_update h.orderly ⟨Nat.zero_le _, .nil, forall_mem_nil _⟩⟩
  | quiet _ _ _ hc hquiet =>
    refine ⟨linked_update h.linked fun _ hr n t hlinked => ?_,
      forall_update h.orderly ((h.orderly _ _ hc).quiet hquiet)⟩
    cases hc.symm.trans hr
    exact hlinked.quiet hquiet
  | spawn _ _ _ t hc hquiet _ ht halone hphase =>
    subst ht
    refine ⟨linked_update_both h.linked hc (fun _ _ _ hlinked => hlinked.quiet hquiet) ?_,
      forall_update horderly ((h.orderly _ _ hc).succ.quiet hquiet)⟩
    constructor <;> simp [hphase, halone, fits, hasSlot, working]
  | enqueue _ conn _ t hc hquiet _ ht halone hphase =>
    subst ht
    refine ⟨linked_update_both h.linked hc (fun _ _ _ hlinked => Linked.quiet ?_ hquiet)
      (Linked.quiet ?_ hquiet), forall_update horderly ((h.orderly _ _ hc).enqueue.quiet hquiet)⟩
    · exact ⟨hlinked.fits, hlinked.slot, fun hqueued => mem_append_left _ (hlinked.queued hqueued),
        hlinked.working, hlinked.lost⟩
    · constructor <;> simp [hphase, halone, fits, hasSlot, working]
  | turn _ _ _ _ _ _ _ ht hc hturn =>
    have hlinked := h.link ht hc
    have hconn := h.orderly _ _ hc
    exact ⟨linked_update_both h.linked hc (fun _ _ => hturn.others hlinked hconn)
      (hturn.linked hlinked hconn), forall_update h.orderly (hturn.orderly hconn hlinked.fits)⟩

theorem InOrder.addTask (h : InOrder runsConcurrently s) (hs : Numbered s)
    (hqueued : t.alone runsConcurrently → t.phase = .queued) (hnew : t.phase.launched = false) :
    InOrder runsConcurrently (s.addTask t) := by
  have hold : ∀ {n t₁}, n ∈ s.started → (s.addTask t).tasks n = some t₁ → s.tasks n = some t₁ := by
    intro n t₁ hn ht₁
    obtain ⟨t₀, ht₀⟩ := hs.started n hn
    rcases update_eq_some.1 ht₁ with ⟨rfl, -⟩ | ⟨-, ht₁⟩
    · exact absurd (hs.lt_next _ t₀ ht₀) (Nat.lt_irrefl _)
    · exact ht₁
  refine ⟨fun m n t₁ t₂ ht₁ ht₂ hconn halone₁ halone₂ hlt hphase => ?_,
    fun n t₁ ht₁ => ?_, ?_⟩
  · rcases update_eq_some.1 ht₂ with ⟨-, rfl⟩ | ⟨-, ht₂⟩
    · exact absurd (hqueued halone₂) hphase
    · rcases update_eq_some.1 ht₁ with ⟨rfl, -⟩ | ⟨-, ht₁⟩
      · exact absurd (hs.lt_next n t₂ ht₂) (Nat.lt_asymm hlt)
      · exact h.before m n t₁ t₂ ht₁ ht₂ hconn halone₁ halone₂ hlt hphase
  · rcases update_eq_some.1 ht₁ with ⟨rfl, rfl⟩ | ⟨-, ht₁⟩
    · refine iff_of_false (fun hn => ?_) (by simp [hnew])
      cases hs.next_eq_none.symm.trans (hold hn (update_eq_some.2 (.inl ⟨rfl, rfl⟩)))
    · exact h.launched n t₁ ht₁
  · refine h.started.imp_of_mem fun {m n} hm hn hrel t₁ t₂ ht₁ ht₂ => ?_
    exact hrel t₁ t₂ (hold hm ht₁) (hold hn ht₂)

theorem InOrder.ended_of_lt (h : InOrder runsConcurrently s) (htidy : Tidy runsConcurrently s)
    (ht : s.tasks n = some t) (hc : s.connections t.conn = some conn)
    (hturn : Turn runsConcurrently n t conn s.gate phase conn' gate starts)
    {t₁ : Task Operation Outcome} (ht₁ : s.tasks m = some t₁) (hconn : t₁.conn = t.conn)
    (halone₁ : t₁.alone runsConcurrently) (halone : t.alone runsConcurrently)
    (hlt : m < n) : t₁.phase.ended := by
  rcases hturn.phases.2.2 with hphase | ⟨hworker, rest, hqueue⟩
  · exact h.before m n t₁ t ht₁ ht hconn halone₁ halone hlt hphase
  · have hlinked := htidy.link ht₁ (hconn ▸ hc)
    rcases cases_of_fits (halone₁ ▸ hlinked.fits) with hqueued | hworking | hended
    · have hm := hlinked.queued hqueued
      have hsorted := (htidy.orderly t.conn conn hc).sorted
      rw [hqueue] at hm hsorted
      rcases mem_cons.1 hm with rfl | hm
      · exact absurd hlt (Nat.lt_irrefl m)
      · exact absurd ((pairwise_cons.1 hsorted).1 m hm) (Nat.lt_asymm hlt)
    · cases hworker.symm.trans (hlinked.working halone₁ hworking)
    · exact hended

theorem InOrder.turn (h : InOrder runsConcurrently s) (htidy : Tidy runsConcurrently s)
    (ht : s.tasks n = some t) (hc : s.connections t.conn = some conn)
    (hturn : Turn runsConcurrently n t conn s.gate phase conn' gate starts) :
    InOrder runsConcurrently { s.move n t phase conn' gate with
      started := if starts then s.started ++ [n] else s.started } := by
  set s' : Process Operation Outcome := { s.move n t phase conn' gate with
    started := if starts then s.started ++ [n] else s.started }
  have hmem : ∀ {m}, m ∈ s'.started ↔ m ∈ s.started ∨ m = n ∧ starts := by
    intro m
    cases starts <;> simp [s']
  -- the tasks before the step, which are for the same commands
  have hold : ∀ {m t₁}, s'.tasks m = some t₁ → ∃ t₀, s.tasks m = some t₀ ∧ t₀.conn = t₁.conn ∧
      t₀.alone runsConcurrently = t₁.alone runsConcurrently := by
    intro m t₁ ht₁
    rcases update_eq_some.1 ht₁ with ⟨rfl, rfl⟩ | ⟨-, ht₁⟩
    · exact ⟨t, ht, rfl, rfl⟩
    · exact ⟨t₁, ht₁, rfl, rfl⟩
  have hpairs : s.started.Pairwise (s'.Arrived runsConcurrently) := by
    refine h.started.imp fun hrel t₁ t₂ ht₁ ht₂ hconn halone₁ halone₂ => ?_
    obtain ⟨t₁', ht₁', hconn₁, heq₁⟩ := hold ht₁
    obtain ⟨t₂', ht₂', hconn₂, heq₂⟩ := hold ht₂
    exact hrel t₁' t₂' ht₁' ht₂' (hconn₁.trans (hconn.trans hconn₂.symm)) (heq₁.trans halone₁)
      (heq₂.trans halone₂)
  refine ⟨fun m k t₁ t₂ ht₁ ht₂ hconn halone₁ halone₂ hlt hphase => ?_, fun m t₁ ht₁ => ?_, ?_⟩
  · rcases update_eq_some.1 ht₂ with ⟨rfl, rfl⟩ | ⟨-, hk⟩
    · rcases update_eq_some.1 ht₁ with ⟨rfl, -⟩ | ⟨-, hm⟩
      · exact absurd hlt (Nat.lt_irrefl _)
      · exact h.ended_of_lt htidy ht hc hturn hm hconn halone₁ halone₂ hlt
    · rcases update_eq_some.1 ht₁ with ⟨rfl, rfl⟩ | ⟨-, hm⟩
      · have hended := h.before m k t t₂ ht hk hconn halone₁ halone₂ hlt hphase
        cases hturn.phases.1.symm.trans hended
      · exact h.before m k t₁ t₂ hm hk hconn halone₁ halone₂ hlt hphase
  · rw [hmem]
    rcases update_eq_some.1 ht₁ with ⟨rfl, rfl⟩ | ⟨hne, ht₁⟩
    · rw [hturn.launched.1, h.launched m t ht, eq_self, true_and]
    · rw [h.launched m t₁ ht₁, or_iff_left fun hm => hne hm.1]
  · cases starts with
    | false => exact hpairs
    | true =>
      have hphase := hturn.launched.2 rfl
      refine pairwise_append.2 ⟨hpairs, pairwise_singleton _ _, fun m hm k hk => ?_⟩
      rw [mem_singleton.1 hk]
      intro t₁ t₂ ht₁ ht₂ hconn halone₁ halone₂
      obtain ⟨t₁', ht₁', hconn₁, heq₁⟩ := hold ht₁
      obtain ⟨t₂', ht₂', hconn₂, heq₂⟩ := hold ht₂
      cases ht.symm.trans ht₂'
      have hlaunched := (h.launched m t₁' ht₁').1 hm
      -- a later one cannot have been started: this one has not ended
      rcases Nat.lt_trichotomy m n with hlt | rfl | hlt
      · exact hlt
      · cases ht.symm.trans ht₁'
        rw [hphase] at hlaunched
        cases hlaunched
      · have hended := h.before n m t t₁' ht ht₁' (hconn₂.trans (hconn.symm.trans hconn₁.symm))
          (heq₂.trans halone₂) (heq₁.trans halone₁) hlt (fun hqueued => by
            rw [hqueued] at hlaunched
            exact Bool.noConfusion hlaunched)
        rw [hphase] at hended
        cases hended

/-! ### Responses -/

/-- What a task has put into the queue of its connection's writer. -/
def Task.reply (n : ℕ) (t : Task Operation Outcome) : List (Message Outcome) :=
  match t.phase with
  | .answered outcome => [.response n t.requestId outcome]
  | _ => []

variable (s)

def Process.due (c n : ℕ) : List (Message Outcome) :=
  match s.tasks n with
  | some t => if t.conn = c then t.reply n else []
  | none => []

/-- The queue of a writer gets the response of every task that has ended after a run, once, unless
the writer ended before. -/
def Replied : Prop :=
  ∀ c conn, s.connections c = some conn → ∀ n, conn.responses n = s.due c n

theorem Task.reply_of_not_ended (hended : t.phase.ended = false) : t.reply n = [] := by
  unfold Task.reply
  split
  · rename_i outcome hanswered
    rw [hanswered] at hended
    cases hended
  · rfl

open Process

variable {s}

theorem Process.due_of_some (ht : s.tasks n = some t) (c : ℕ) :
    s.due c n = if t.conn = c then t.reply n else [] := by
  rw [due, ht]

theorem Process.due_of_none (hn : s.tasks n = none) (c : ℕ) : s.due c n = [] := by
  rw [due, hn]

theorem due_setConnection (s : Process Operation Outcome) (c : ℕ) (conn : Connection Outcome) :
    (s.setConnection c conn).due = s.due := rfl

theorem due_addTask (hs : Numbered s) (hended : t.phase.ended = false) :
    (s.addTask t).due = s.due := by
  funext c n
  by_cases hn : n = s.next
  · subst hn
    have ht : (s.addTask t).tasks s.next = some t := update_eq_some.2 (.inl ⟨rfl, rfl⟩)
    rw [due_of_none hs.next_eq_none, due_of_some ht, Task.reply_of_not_ended hended, ite_self]
  · have ht : (s.addTask t).tasks n = s.tasks n := update_of_ne hn _ _
    rw [due, due, ht]

include h in
theorem Turn.responses (m : ℕ) :
    conn'.responses m =
      conn.responses m ++ if m = n then ({ t with phase := phase } : Task _ _).reply n else [] := by
  have hsame : ∀ {replies : List (Message Outcome)}, replies = [] →
      conn.responses m = conn.responses m ++ if m = n then replies else [] := by
    rintro replies rfl
    rw [ite_self, append_nil]
  cases h with
  | drop | lose =>
    rw [(release_responses _ _ _).1]
    exact hsame rfl
  | answer outcome =>
    rw [(release_responses _ _ _).1, responses_push]
    by_cases hm : m = n
    · have hresponds : (Message.response n t.requestId outcome).responds m := decide_eq_true hm.symm
      rw [if_pos hm, if_pos hresponds]
      rfl
    · have hresponds : ¬ (Message.response n t.requestId outcome).responds m :=
        fun hresponds => hm (of_decide_eq_true hresponds).symm
      rw [if_neg hm, if_neg hresponds]
  | _ => exact hsame rfl

theorem Replied.turn (h : Replied s) (ht : s.tasks n = some t)
    (hc : s.connections t.conn = some conn)
    (hturn : Turn runsConcurrently n t conn s.gate phase conn' gate starts) (started : List ℕ) :
    Replied { s.move n t phase conn' gate with started := started } := by
  set s' : Process Operation Outcome := { s.move n t phase conn' gate with started := started }
  have hself : ∀ c, s'.due c n = if t.conn = c then ({ t with phase := phase } : Task _ _).reply n
      else [] := by
    have htask : s'.tasks n = some { t with phase := phase } := update_eq_some.2 (.inl ⟨rfl, rfl⟩)
    exact due_of_some htask
  have hother : ∀ c m, m ≠ n → s'.due c m = s.due c m := by
    intro c m hm
    have htasks : s'.tasks m = s.tasks m := update_of_ne hm _ _
    rw [due, due, htasks]
  have hbefore : ∀ c, s.due c n = [] := by
    intro c
    rw [due_of_some ht, Task.reply_of_not_ended hturn.phases.1, ite_self]
  intro c₁ conn₁ hc₁ m
  rcases update_eq_some.1 hc₁ with ⟨rfl, rfl⟩ | ⟨hcc, hc₁⟩
  · rw [hturn.responses m, h t.conn conn hc m]
    by_cases hm : m = n
    · rw [hm, hbefore, if_pos rfl, hself, if_pos rfl, nil_append]
    · rw [if_neg hm, append_nil, hother _ _ hm]
  · rw [h c₁ conn₁ hc₁ m]
    by_cases hm : m = n
    · rw [hm, hbefore, hself, if_neg (Ne.symm hcc)]
    · rw [hother _ _ hm]

theorem Replied.step (h : Replied s) (hs : Numbered s) (htidy : Tidy runsConcurrently s)
    (he : Effect runsConcurrently e s s') : Replied s' := by
  cases he with
  | same => exact h
  | connect c hc =>
    refine forall_update h fun n => ?_
    rw [due_setConnection]
    cases ht : s.tasks n with
    | none => exact (due_of_none ht c).symm
    | some t =>
      obtain ⟨conn, hconn, -⟩ := htidy.linked n t ht
      rw [due_of_some ht, if_neg]
      · rfl
      · rintro rfl
        cases hc.symm.trans hconn
  | quiet _ _ _ hc hquiet =>
    exact forall_update h fun n => (hquiet.responses n).trans (h _ _ hc n)
  | spawn _ _ _ _ hc hquiet _ _ _ hphase | enqueue _ _ _ _ hc hquiet _ _ _ hphase =>
    rw [Replied, due_setConnection, due_addTask hs (hphase ▸ rfl)]
    exact forall_update h fun n => (hquiet.responses n).trans (h _ _ hc n)
  | turn _ _ _ _ _ _ _ ht hc hturn => exact h.turn ht hc hturn _

/-! ### Runs -/

variable (runsConcurrently) in
structure Invariant (s : Process Operation Outcome) : Prop where
  numbered : Numbered s
  gated : Gated runsConcurrently s
  tidy : Tidy runsConcurrently s
  inOrder : InOrder runsConcurrently s
  replied : Replied s

theorem invariant_initial : Invariant runsConcurrently (.initial : Process Operation Outcome) := by
  refine ⟨numbered_initial, ⟨?_, forall_mem_nil _⟩, ⟨?_, ?_⟩, ⟨?_, ?_, .nil⟩,
    fun _ _ hc => nomatch hc⟩
  -- there is no task and no connection
  all_goals
    intros
    contradiction

theorem InOrder.setConnection (h : InOrder runsConcurrently s) (c : ℕ) (conn : Connection Outcome) :
    InOrder runsConcurrently (s.setConnection c conn) :=
  ⟨h.before, h.launched, h.started⟩

theorem Invariant.step (h : Invariant runsConcurrently s) (he : Effect runsConcurrently e s s') :
    Invariant runsConcurrently s' := by
  refine ⟨h.numbered.step he, h.gated.step he, h.tidy.step he, ?_,
    h.replied.step h.numbered h.tidy he⟩
  cases he with
  | same => exact h.inOrder
  | connect | quiet => exact h.inOrder.setConnection _ _
  | spawn _ _ _ _ _ _ _ _ halone hphase =>
    refine (h.inOrder.addTask h.numbered (fun hwrites => ?_) (hphase ▸ rfl)).setConnection _ _
    cases halone.symm.trans hwrites
  | enqueue _ _ _ _ _ _ _ _ _ hphase =>
    exact (h.inOrder.addTask h.numbered (fun _ => hphase) (hphase ▸ rfl)).setConnection _ _
  | turn _ _ _ _ _ _ _ ht hc hturn => exact h.inOrder.turn h.tidy ht hc hturn

variable (runsConcurrently) in
/-- Operations that have to run alone do, in arrival order on each connection, so many others run at
once. Of each task that has ended after a run, one response with its own request id is queued, or
none if the writer has ended; no other task has one. -/
structure Served (s : Process Operation Outcome) : Prop where
  alone : ∀ m n t t', s.tasks m = some t → s.tasks n = some t' → t.phase = .running →
    t'.phase = .running → t.alone runsConcurrently = true → m = n
  inOrder : s.started.Pairwise (s.Arrived runsConcurrently)
  reads : ∀ c (ns : List ℕ), ns.Nodup → (∀ n ∈ ns, ∃ t, s.tasks n = some t ∧ t.conn = c ∧
    t.alone runsConcurrently = false ∧ t.phase = .running) → ns.length ≤ maxConcurrentReads
  ended : ∀ n t conn, s.tasks n = some t → s.connections t.conn = some conn → n ∈ s.started →
    t.phase.ended = true →
    (∃ outcome, t.phase = .answered outcome ∧
      conn.responses n = [.response n t.requestId outcome]) ∨
    (∃ outcome, t.phase = .unanswered outcome) ∧ conn.responses n = [] ∧ conn.writer = false
  others : ∀ c conn n, s.connections c = some conn → conn.responses n ≠ [] →
    n ∈ s.started ∧ ∃ t, s.tasks n = some t ∧ t.conn = c ∧ t.phase.ended = true

theorem Invariant.served (h : Invariant runsConcurrently s) : Served runsConcurrently s where
  alone m n t t' ht ht' hphase hphase' halone := by
    have hm := h.gated.holds m t ht (hphase ▸ rfl)
    have hn := h.gated.holds n t' ht' (hphase' ▸ rfl)
    exact (mk.inj (h.gated.alone _ hm halone _ hn)).1.symm
  inOrder := h.inOrder.started
  reads c ns hnodup hreads := by
    cases hc : s.connections c with
    | none =>
      have hnil : ns = [] := by
        refine eq_nil_iff_forall_not_mem.2 fun n hn => ?_
        obtain ⟨t, ht, rfl, -⟩ := hreads n hn
        obtain ⟨conn, hconn, -⟩ := h.tidy.linked n t ht
        cases hc.symm.trans hconn
      rw [hnil]
      exact zero_le _
    | some conn =>
      have hsub : ns ⊆ conn.slots.holders := by
        intro n hn
        obtain ⟨t, ht, rfl, halone, hphase⟩ := hreads n hn
        exact (h.tidy.link ht hc).slot halone (hphase ▸ rfl)
      exact Nat.le_trans (hnodup.subperm hsub).length_le (h.tidy.orderly c conn hc).count
  ended n t conn ht hc hn hended := by
    have hlaunched := (h.inOrder.launched n t ht).1 hn
    have hdue : conn.responses n = t.reply n := by
      rw [h.replied t.conn conn hc n, due_of_some ht, if_pos rfl]
    rw [hdue, Task.reply]
    cases hphase : t.phase with
    | answered outcome => exact .inl ⟨outcome, rfl, rfl⟩
    | unanswered outcome =>
      exact .inr ⟨⟨outcome, rfl⟩, rfl, (h.tidy.link ht hc).lost outcome hphase⟩
    | dropped => simp [hphase, launched] at hlaunched
    | _ => simp [hphase, ended] at hended
  others c conn n hc hne := by
    rw [h.replied c conn hc n] at hne
    cases ht : s.tasks n with
    | none => exact absurd (due_of_none ht c) hne
    | some t =>
      rw [due_of_some ht, Task.reply] at hne
      split_ifs at hne with hconn
      · split at hne
        · rename_i hphase
          exact ⟨(h.inOrder.launched n t ht).2 (hphase ▸ rfl), t, rfl, hconn, hphase ▸ rfl⟩
        · exact absurd rfl hne
      · exact absurd rfl hne

def twoConnections : List (Event Bool Unit) :=
  [.connect 0, .connect 1, .receive 0 (.command 10 false), .receive 1 (.command 11 true),
    .advance 0 (), .advance 0 (), .advance 0 (), .advance 1 (), .advance 1 (), .advance 1 (),
    .advance 1 (), .advance 0 (), .advance 0 (), .advance 1 (), .advance 1 ()]

def unsent : List (Event Bool Unit) :=
  [.connect 0, .receive 0 (.command 10 false), .advance 0 (), .advance 0 (), .advance 0 (),
    .receive 0 .ping, .write 0 false, .advance 0 (), .advance 0 ()]

theorem Effect.nodup (he : Effect runsConcurrently e s s')
    (hs : InOrder runsConcurrently s) (h : s.started.Nodup) : s'.started.Nodup := by
  cases he with
  | turn n t _ _ _ _ starts ht _ hturn =>
    cases starts with
    | false => exact h
    | true =>
      refine nodup_append.2 ⟨h, by simp, fun m hm k hk heq => ?_⟩
      obtain rfl : m = n := heq.trans (mem_singleton.1 hk)
      -- what has started is past the phase from which it starts
      have hlaunched := (hs.launched m t ht).1 hm
      rw [hturn.launched.2 rfl] at hlaunched
      cases hlaunched
  | _ => exact h

/-- Whatever the connections bring and however they end, no command starts twice. -/
theorem nodup_started (es : List (Event Operation Outcome)) :
    (es.foldl (step runsConcurrently) .initial).started.Nodup := by
  have hreach : Reaches runsConcurrently .initial (es.foldl (step runsConcurrently) .initial) :=
    Machine.reached_foldl (fun _ _ _ => trivial) _
  refine (hreach.inv (I := fun s => Invariant runsConcurrently s ∧ s.started.Nodup)
    ⟨invariant_initial, nodup_nil⟩ fun s e h _ => ⟨h.1.step (effect_step s e), ?_⟩).2
  exact (effect_step s e).nodup h.1.inOrder h.2

end Abyssal.Agent.Transport
