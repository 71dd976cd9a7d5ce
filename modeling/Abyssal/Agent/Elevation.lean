import Mathlib.Data.List.Basic

/-!
# Time-boxed elevation of an agent

Every program that may need root is run through one entry point, which asks whether the agent is
elevated, and the question itself, when the answer is yes, starts the window anew. So does a status
query. The state knows nothing of who sent the operation. Times are those of the agent's monotonic
clock in milliseconds.

## Main results

* `elevated_iff_unbroken`: how long an elevation lasts.
-/

namespace Abyssal.Agent.Elevation

open List

/-- When the elevation was last used, and the idle timeout. -/
abbrev State := Option (ℕ × ℕ)

def new : State := none

variable (now : ℕ)

/-- `ElevationState::is_elevated`: the answer, and the state the question leaves. -/
def isElevated : State → Bool × State
  | some (lastUsed, idleTimeout) =>
    if now - lastUsed < idleTimeout then (true, some (now, idleTimeout)) else (false, none)
  | none => (false, none)

def twoDigits (n : ℕ) : String := if n < 10 then "0" ++ toString n else toString n

/-- The text for the operator. The clock is read again for what is left. -/
def statusText (now later : ℕ) (s : State) : String × State :=
  let (elevated, s) := isElevated now s
  if elevated then
    let remaining := match s with
      | some (since, idleTimeout) => (idleTimeout - (later - since)) / 1000
      | none => 0
    ("Elevated -- expires in " ++ toString (remaining / 60) ++ "m" ++ twoDigits (remaining % 60) ++
      "s of inactivity", s)
  else ("Not elevated", s)

/-- What `run`, `run_allow_failure` and `run_with_stdin` execute. -/
def commandLine (program : String) (args : List String) (s : State) :
    (String × List String) × State :=
  let (elevated, s) := isElevated now s
  if elevated then (("sudo", "-n" :: program :: args), s) else ((program, args), s)

/-- Who an operation comes from. The agent is not told. -/
inductive Origin where
  | operator
  | unattended
  deriving DecidableEq

inductive Action where
  /-- `Elevate`, and whether `sudo -S -v` accepts the password -/
  | elevate (validated : Bool) (idleTimeout : ℕ)
  | deescalate
  /-- `ElevationStatus` -/
  | status
  /-- a program run through the elevation, for any operation that may need root -/
  | run (program : String) (args : List String)
  /-- an operation that does not look at the elevation -/
  | unprivileged
  deriving DecidableEq

structure Event where
  time : ℕ
  origin : Origin
  action : Action

def step (s : State) (e : Event) : State :=
  match e.action with
  | .elevate validated idleTimeout => if validated then some (e.time, idleTimeout) else s
  | .deescalate => none
  | .status => (statusText e.time e.time s).2
  | .run program args => (commandLine e.time program args s).2
  | .unprivileged => s

def run (s : State) (events : List Event) : State := events.foldl step s

def Elevated (s : State) : Prop := (isElevated now s).1 = true

instance (now : ℕ) (s : State) : Decidable (Elevated now s) := inferInstanceAs (Decidable (_ = _))

def Event.asks (e : Event) : Bool :=
  match e.action with
  | .status => true
  | .run _ _ => true
  | _ => false

def Event.elevates (e : Event) : Bool :=
  match e.action with
  | .elevate validated _ => validated
  | _ => false

def uses (events : List Event) : List ℕ := (events.filter Event.asks).map Event.time

/-- Each of the times lies within the idle timeout of the one before it. -/
def Unbroken (idleTimeout : ℕ) : ℕ → List ℕ → Prop
  | _, [] => True
  | lastUsed, time :: times => time - lastUsed < idleTimeout ∧ Unbroken idleTimeout time times

instance decidableUnbroken (idleTimeout : ℕ) :
    (lastUsed : ℕ) → (times : List ℕ) → Decidable (Unbroken idleTimeout lastUsed times)
  | _, [] => .isTrue trivial
  | _, time :: times => @instDecidableAnd _ _ _ (decidableUnbroken idleTimeout time times)

@[simp] theorem elevated_some {now lastUsed idleTimeout : ℕ} :
    Elevated now (some (lastUsed, idleTimeout)) ↔ now - lastUsed < idleTimeout := by
  rw [Elevated, isElevated]
  split_ifs with h
  · simp [h]
  · simp [h]

@[simp] theorem not_elevated_none : ¬ Elevated now none := Bool.false_ne_true

theorem isElevated_snd (now lastUsed idleTimeout : ℕ) :
    (isElevated now (some (lastUsed, idleTimeout))).2 =
      if now - lastUsed < idleTimeout then some (now, idleTimeout) else none := by
  rw [isElevated]
  split_ifs
  all_goals rfl

private theorem statusText_snd (now later : ℕ) (s : State) :
    (statusText now later s).2 = (isElevated now s).2 := by
  simp only [statusText]
  split_ifs
  all_goals rfl

private theorem commandLine_snd (program : String) (args : List String) (s : State) :
    (commandLine now program args s).2 = (isElevated now s).2 := by
  simp only [commandLine]
  split_ifs
  all_goals rfl

/-- What any event but an elevation does: a use asks, and asking renews or ends the window. -/
theorem step_of_not_elevates {e : Event} (h : e.elevates = false) (s : State) :
    step s e = if e.asks then (isElevated e.time s).2
      else if e.action = .deescalate then none else s := by
  obtain ⟨time, _, action⟩ := e
  cases action with
  | elevate validated =>
    obtain rfl : validated = false := h
    rfl
  | status => exact statusText_snd time time s
  | run program args => exact commandLine_snd time program args s
  | deescalate | unprivileged => rfl

private theorem run_none {events : List Event} (h : ∀ e ∈ events, e.elevates = false) :
    run none events = none := by
  induction events with
  | nil => rfl
  | cons e _ ih =>
    have hstep : step none e = none := by
      rw [step_of_not_elevates (h e mem_cons_self)]
      split_ifs
      all_goals rfl
    rw [run, foldl_cons, hstep]
    exact ih fun other hmem => h other (mem_cons_of_mem _ hmem)

theorem elevated_run_iff {events : List Event} (h : ∀ e ∈ events, e.elevates = false)
    (now lastUsed idleTimeout : ℕ) :
    Elevated now (run (some (lastUsed, idleTimeout)) events) ↔
      (∀ e ∈ events, e.action ≠ .deescalate) ∧
        Unbroken idleTimeout lastUsed (uses events ++ [now]) := by
  induction events generalizing lastUsed with
  | nil => simp [run, uses, Unbroken]
  | cons e events ih =>
    have hrest := fun other hmem => h other (mem_cons_of_mem e hmem)
    rw [run, foldl_cons, ← run, step_of_not_elevates (h e mem_cons_self)]
    by_cases hasks : e.asks
    · have huses : uses (e :: events) = e.time :: uses events := by
        rw [uses, filter_cons_of_pos hasks, map_cons, ← uses]
      have hkeeps : e.action ≠ .deescalate := by
        intro haction
        rw [Event.asks, haction] at hasks
        cases hasks
      rw [if_pos hasks, isElevated_snd, huses, cons_append, Unbroken]
      split_ifs with hwithin
      · rw [ih hrest]
        simp [hkeeps, hwithin]
      · rw [run_none hrest]
        simp [hwithin]
    · have huses : uses (e :: events) = uses events := by
        rw [uses, filter_cons_of_neg hasks, ← uses]
      rw [if_neg hasks, huses]
      split_ifs with haction
      · rw [run_none hrest]
        simp [haction]
      · rw [ih hrest]
        simp [haction]

def lastUse (elevatedAt : ℕ) (events : List Event) : ℕ := (uses events).getLastD elevatedAt

theorem Unbroken.of_append_singleton {idleTimeout lastUsed now : ℕ} {times : List ℕ}
    (h : Unbroken idleTimeout lastUsed (times ++ [now])) :
    now - times.getLastD lastUsed < idleTimeout := by
  induction times generalizing lastUsed with
  | nil => exact h.1
  | cons _ _ ih =>
    rw [getLastD_cons]
    exact ih h.2

/-- Between two elevations the agent is elevated exactly as long as nobody de-escalates it and its
uses, an operator's or not, follow one another within the idle timeout. -/
theorem elevated_iff_unbroken {earlier later : List Event} {t idleTimeout : ℕ} {origin : Origin}
    (hlater : ∀ e ∈ later, e.elevates = false) (now : ℕ) :
    (Elevated now (run new (earlier ++ ⟨t, origin, .elevate true idleTimeout⟩ :: later)) ↔
      (∀ e ∈ later, e.action ≠ .deescalate) ∧ Unbroken idleTimeout t (uses later ++ [now])) ∧
    (lastUse t later + idleTimeout ≤ now →
      ¬ Elevated now (run new (earlier ++ ⟨t, origin, .elevate true idleTimeout⟩ :: later))) := by
  have hrun : run new (earlier ++ ⟨t, origin, .elevate true idleTimeout⟩ :: later) =
      run (some (t, idleTimeout)) later := by
    rw [run, foldl_append]
    rfl
  rw [hrun, elevated_run_iff hlater]
  refine ⟨Iff.rfl, fun hidle h => ?_⟩
  have hlink := h.2.of_append_singleton
  rw [← lastUse] at hlink
  omega

theorem elevated_iff_unbroken_sweep :
    Elevated 2999999 (run new ([] ++ ⟨0, .operator, .elevate true 1200000⟩ ::
        [⟨900000, .operator, .run "hostnamectl" []⟩, ⟨1800000, .unattended, .run "ps" []⟩])) ∧
      ¬ Elevated 3000000 (run new ([] ++ ⟨0, .operator, .elevate true 1200000⟩ ::
        [⟨900000, .operator, .run "hostnamectl" []⟩, ⟨1800000, .unattended, .run "ps" []⟩])) :=
  ⟨(elevated_iff_unbroken (by decide) 2999999).1.2 (by decide),
    (elevated_iff_unbroken (by decide) 3000000).2 (by decide)⟩

/-- Without any command of an operator, a sweep or a status query holds the window open. -/
theorem elevated_of_unattended :
    Elevated 30 (run new [⟨0, .operator, .elevate true 20⟩, ⟨15, .unattended, .run "ps" []⟩]) ∧
      Elevated 30 (run new [⟨0, .operator, .elevate true 20⟩, ⟨15, .unattended, .status⟩]) := by
  decide

end Abyssal.Agent.Elevation
