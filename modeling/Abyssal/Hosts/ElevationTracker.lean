import Mathlib.Data.List.Basic

/-!
# The control plane's mirror of elevated hosts

The control plane remembers which hosts it believes to be elevated, each for a fixed window. A task
sweeps the tracker every minute and writes an audit record for every entry it finds lapsed. The
pages that show the elevation evict lapsed entries too, and report them to nobody.

## Main results

* `reports_eq_one_iff`: when a lapse is reported.
-/

namespace Abyssal.Hosts.ElevationTracker

open List Function Bool

structure Entry where
  hostName : String
  since : ℕ
  window : ℕ

variable (now : ℕ)

/-- `since.elapsed() >= window`. -/
def Entry.Lapsed (e : Entry) : Prop := e.window ≤ now - e.since

instance (now : ℕ) (e : Entry) : Decidable (e.Lapsed now) := inferInstanceAs (Decidable (_ ≤ _))

/-- `window.saturating_sub(since.elapsed())`. -/
def Entry.remaining (e : Entry) : ℕ := e.window - (now - e.since)

abbrev Tracker (ι : Type*) := ι → Option Entry

variable {ι : Type*}

def new : Tracker ι := fun _ => none

inductive Call (ι : Type*) where
  | markElevated (hostId : ι) (hostName : String) (window : ℕ)
  | markDeescalated (hostId : ι)
  | isElevated (hostId : ι)
  | remainingFor (hostId : ι)
  | snapshot
  | sweepExpired
  deriving DecidableEq

inductive Answer (ι : Type*) where
  | done
  | elevated (yes : Bool)
  | remaining (left : Option ℕ)
  | hosts (listed : ι → Option (String × ℕ))
  | expired (removed : ι → Option String)

variable (s : Tracker ι)

def Tracker.lapsed : Tracker ι :=
  fun host => (s host).filter fun e => e.Lapsed now

def Tracker.live : Tracker ι :=
  fun host => (s host).filter fun e => ¬ e.Lapsed now

open Tracker

theorem lapsed_of_eq_some {s : Tracker ι} {hostId : ι} {e : Entry} (h : s hostId = some e)
    (now : ℕ) : (s.lapsed now hostId).isSome = decide (e.Lapsed now) := by
  rw [lapsed, h]
  by_cases hlapsed : e.Lapsed now
  · simp [hlapsed]
  · simp [hlapsed]

theorem live_of_eq_some {s : Tracker ι} {hostId : ι} {e : Entry} (h : s hostId = some e)
    (now : ℕ) : s.live now hostId = if e.Lapsed now then none else some e := by
  rw [live, h]
  by_cases hlapsed : e.Lapsed now
  · simp [hlapsed]
  · simp [hlapsed]

section

variable [DecidableEq ι]

/-- The eviction of `is_elevated` and `remaining_for`: one host, if its window has lapsed. -/
def Tracker.evict (hostId : ι) (s : Tracker ι) : Tracker ι :=
  update s hostId (s.live now hostId)

def Tracker.call (now : ℕ) : Call ι → Tracker ι × Answer ι
  | .markElevated hostId hostName window =>
    (update s hostId (some ⟨hostName, now, window⟩), .done)
  | .markDeescalated hostId => (update s hostId none, .done)
  | .isElevated hostId => (s.evict now hostId, .elevated (s.live now hostId).isSome)
  | .remainingFor hostId =>
    (s.evict now hostId, .remaining ((s.live now hostId).map (Entry.remaining now)))
  | .snapshot =>
    (s.live now,
      .hosts fun host => (s.live now host).map fun e => (e.hostName, e.remaining now))
  | .sweepExpired => (s.live now, .expired fun host => (s.lapsed now host).map Entry.hostName)

def Tracker.run (calls : List (ℕ × Call ι)) : Tracker ι :=
  calls.foldl (fun s c => (s.call c.1 c.2).1) s

def Answer.returns (hostId : ι) : Answer ι → Bool
  | .expired removed => (removed hostId).isSome
  | _ => false

def Call.elevates (hostId : ι) : Call ι → Bool
  | .markElevated host _ _ => host = hostId
  | _ => false

/-- How many sweeps of a run return the entry that a host has at its start, before another takes its
place. -/
def reports (hostId : ι) : Tracker ι → List (ℕ × Call ι) → ℕ
  | _, [] => 0
  | s, (now, c) :: rest =>
    if c.elevates hostId then 0
    else ((s.call now c).2.returns hostId).toNat + reports hostId (s.call now c).1 rest

/-- The call replaces or removes this host's entry, whether it has lapsed or not. -/
def Call.replaces (hostId : ι) : Call ι → Bool
  | .markElevated host _ _ => host = hostId
  | .markDeescalated host => host = hostId
  | _ => false

def Call.touches (hostId : ι) : Call ι → Bool
  | .markElevated host _ _ => host = hostId
  | .markDeescalated host => host = hostId
  | .isElevated host => host = hostId
  | .remainingFor host => host = hostId
  | .snapshot => true
  | .sweepExpired => true

def LapsesFirst (hostId : ι) (deadline : ℕ) (calls : List (ℕ × Call ι)) : Prop :=
  ∀ c ∈ calls, c.2.replaces hostId = true → deadline ≤ c.1

instance (hostId : ι) (deadline : ℕ) (calls : List (ℕ × Call ι)) :
    Decidable (LapsesFirst hostId deadline calls) :=
  inferInstanceAs (Decidable (∀ c ∈ calls, _ → _))

def firstLook (hostId : ι) (deadline : ℕ) (calls : List (ℕ × Call ι)) : Option (Call ι) :=
  (calls.find? fun c => decide (deadline ≤ c.1) && c.2.touches hostId).map Prod.snd

/-! ### One call -/

variable {hostId : ι} {c : Call ι}

theorem call_apply (h : c.elevates hostId = false) (s : Tracker ι) (now : ℕ) :
    (s.call now c).1 hostId =
      if c.replaces hostId then none else if c.touches hostId then s.live now hostId
        else s hostId := by
  cases c with
  | markElevated host =>
    have hne : host ≠ hostId := of_decide_eq_false h
    simp only [call, Call.replaces, Call.touches, decide_eq_false hne, false_eq_true,
      if_false, update_of_ne hne.symm]
  | markDeescalated host =>
    by_cases heq : host = hostId
    · subst heq
      simp [call, Call.replaces]
    · simp [call, Call.replaces, Call.touches, heq, update_of_ne (Ne.symm heq)]
  | isElevated host | remainingFor host =>
    by_cases heq : host = hostId
    · subst heq
      simp [call, evict, Call.replaces, Call.touches]
    · simp [call, evict, Call.replaces, Call.touches, heq, update_of_ne (Ne.symm heq)]
  | snapshot | sweepExpired => rfl

theorem returns_call (s : Tracker ι) (now : ℕ) (c : Call ι) (hostId : ι) :
    (s.call now c).2.returns hostId =
      (decide (c = .sweepExpired) && (s.lapsed now hostId).isSome) := by
  cases c with
  | sweepExpired => simp [call, Answer.returns]
  | _ => rfl

theorem replaces_le_touches (h : c.replaces hostId) : c.touches hostId := by
  cases c with
  | markElevated | markDeescalated => exact h
  | _ => cases h

/-! ### Runs -/

variable {s : Tracker ι}

private theorem reports_eq_zero (h : s hostId = none)
    (calls : List (ℕ × Call ι)) : reports hostId s calls = 0 := by
  induction calls generalizing s with
  | nil => rfl
  | cons c _ ih =>
    obtain ⟨now, c⟩ := c
    rw [reports]
    split_ifs with helevates
    · rfl
    · have hgone : (s.call now c).1 hostId = none := by
        rw [call_apply (eq_false_iff.2 helevates), live, h]
        simp
      rw [ih hgone, returns_call, lapsed, h]
      simp

variable {e : Entry}

theorem reports_cons_of_look (h : s hostId = some e)
    {now : ℕ} (hlapsed : e.Lapsed now) (htouches : c.touches hostId) (rest : List (ℕ × Call ι)) :
    reports hostId s ((now, c) :: rest) = (decide (c = .sweepExpired)).toNat := by
  rw [reports]
  split_ifs with helevates
  · -- a new elevation overwrites the lapsed entry
    have hne : c ≠ .sweepExpired := by
      rintro rfl
      cases helevates
    rw [decide_eq_false hne]
    rfl
  · have hgone : (s.call now c).1 hostId = none := by
      rw [call_apply (eq_false_iff.2 helevates), live_of_eq_some h, if_pos hlapsed, htouches]
      simp
    rw [reports_eq_zero hgone, returns_call, lapsed_of_eq_some h, decide_eq_true hlapsed]
    simp

private theorem reports_cons_of_not_look
    (h : s hostId = some e) {now : ℕ} (hreplaces : c.replaces hostId = false)
    (hlook : ¬ (e.Lapsed now ∧ c.touches hostId)) (rest : List (ℕ × Call ι)) :
    (s.call now c).1 hostId = some e ∧
      reports hostId s ((now, c) :: rest) = reports hostId (s.call now c).1 rest := by
  have helevates : c.elevates hostId = false := by
    cases c with
    | markElevated => exact hreplaces
    | _ => rfl
  have hsilent : (s.call now c).2.returns hostId = false := by
    rw [returns_call, lapsed_of_eq_some h]
    refine eq_false_iff.2 fun hboth => hlook ?_
    rw [and_eq_true, decide_eq_true_eq, decide_eq_true_eq] at hboth
    obtain ⟨rfl, hlapsed⟩ := hboth
    exact ⟨hlapsed, rfl⟩
  constructor
  · rw [call_apply helevates, hreplaces, live_of_eq_some h]
    by_cases htouches : c.touches hostId
    · have hnot : ¬ e.Lapsed now := fun hlapsed => hlook ⟨hlapsed, htouches⟩
      simp [htouches, hnot]
    · simp [htouches, h]
  · rw [reports, if_neg (eq_false_iff.1 helevates), hsilent]
    exact Nat.zero_add _

private theorem reports_eq (h : s hostId = some e)
    {calls : List (ℕ × Call ι)} (htimes : ∀ c ∈ calls, e.since ≤ c.1)
    (hlapse : LapsesFirst hostId (e.since + e.window) calls) :
    reports hostId s calls =
      (decide (firstLook hostId (e.since + e.window) calls = some .sweepExpired)).toNat := by
  -- induction over the calls; the entry is in place until the first of them that sees it lapsed
  induction calls generalizing s with
  | nil => rfl
  | cons c rest ih =>
    obtain ⟨now, c⟩ := c
    have hnow : e.since ≤ now := htimes (now, c) mem_cons_self
    have hlapsed : e.Lapsed now ↔ e.since + e.window ≤ now := by
      rw [Entry.Lapsed]
      omega
    by_cases hlook : e.Lapsed now ∧ c.touches hostId
    · have hfirst : firstLook hostId (e.since + e.window) ((now, c) :: rest) = some c := by
        rw [firstLook, find?_cons_of_pos (by simp [hlapsed.1 hlook.1, hlook.2])]
        rfl
      rw [hfirst, reports_cons_of_look h hlook.1 hlook.2]
      simp
    · have hreplaces : c.replaces hostId = false := by
        refine eq_false_iff.2 fun hreplaces => hlook ⟨hlapsed.2 ?_, ?_⟩
        · exact hlapse (now, c) mem_cons_self hreplaces
        · exact replaces_le_touches hreplaces
      obtain ⟨hkept, hreports⟩ := reports_cons_of_not_look h hreplaces hlook rest
      rw [hreports, ih hkept (fun c hmem => htimes c (mem_cons_of_mem _ hmem))
        (fun c hmem => hlapse c (mem_cons_of_mem _ hmem))]
      rw [hlapsed] at hlook
      rw [firstLook, firstLook, find?_cons_of_neg (by simpa using hlook)]

/-- An elevation that lapses is returned by exactly one later sweep if and only if the first call
that touches the host's entry after the lapse is a sweep. -/
theorem reports_eq_one_iff {earlier later : List (ℕ × Call ι)} {t window : ℕ} {hostId : ι}
    {hostName : String}
    (htimes : ((earlier ++ (t, .markElevated hostId hostName window) :: later).map
      Prod.fst).Pairwise (· ≤ ·))
    (hlapse : LapsesFirst hostId (t + window) later) :
    reports hostId (new.run (earlier ++ [(t, .markElevated hostId hostName window)])) later = 1 ↔
      firstLook hostId (t + window) later = some .sweepExpired := by
  have hentry : new.run (earlier ++ [(t, .markElevated hostId hostName window)]) hostId =
      some ⟨hostName, t, window⟩ := by
    rw [run, foldl_append]
    exact update_self _ _ _
  have hlater : ∀ c ∈ later, t ≤ c.1 := by
    rw [map_append, map_cons, pairwise_append, pairwise_cons] at htimes
    exact fun c hmem => htimes.2.1.1 c.1 (mem_map_of_mem hmem)
  rw [reports_eq hentry hlater hlapse]
  by_cases hfirst : firstLook hostId (t + window) later = some .sweepExpired
  · simp [hfirst]
  · simp [hfirst]

theorem reports_eq_one_iff_swept :
    reports 0 (new.run ([] ++ [(0, .markElevated 0 "web-01" 20)]))
      [(5, .isElevated 0), (21, .isElevated 1), (60, .sweepExpired)] = 1 :=
  (reports_eq_one_iff (ι := ℕ) (by decide) (by decide)).2 (by decide)

/-- A page that lists the elevated hosts takes the lapsed entry away. -/
theorem unreported_of_snapshot :
    LapsesFirst 0 (0 + 20) [(21, .snapshot), (60, .sweepExpired), (120, .sweepExpired)] ∧
      reports 0 (new.run [(0, .markElevated 0 "web-01" 20)])
        [(21, .snapshot), (60, .sweepExpired), (120, .sweepExpired)] = 0 := by
  decide

end

end Abyssal.Hosts.ElevationTracker
