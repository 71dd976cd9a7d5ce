import Abyssal.Auth.LoginLimiter
import Mathlib.Data.List.Induction

/-!
# What the limiter remembers

The limiter drops old failures of a key whenever it looks at them.

## Main results

* `isLocked_iff_recorded`: it answers as if it had the whole history of the key.
-/

namespace Abyssal.Auth

open Limit List Function

inductive LimiterCall
  | isLocked (key : Text)
  | recordFailure (key : Text)
  | clear (key : Text)

def LimiterCall.key : LimiterCall → Text
  | isLocked key | recordFailure key | clear key => key

variable (maxAttempts window : ℕ)

def call (attempts : Attempts) (event : ℕ × LimiterCall) : Attempts :=
  match event.2 with
  | .isLocked key => (isLocked maxAttempts window event.1 attempts key).2
  | .recordFailure key => recordFailure window event.1 attempts key
  | .clear key => clear attempts key

def limiterAfter (history : List (ℕ × LimiterCall)) : Attempts :=
  history.foldl (call maxAttempts window) fun _ => none

/-- The failures of a key since it was last cleared, from the calls for this key alone. Nothing is
dropped. -/
def recorded (key : Text) (history : List (ℕ × LimiterCall)) : List ℕ :=
  (history.filter (·.2.key = key)).foldl (fun times event =>
    match event.2 with
    | .isLocked _ => times
    | .recordFailure _ => times ++ [event.1]
    | .clear _ => []) []

variable {maxAttempts window} {key : Text} {history : List (ℕ × LimiterCall)}

/-- The entries that are kept stand for the failures of the key. -/
structure Remembers (window now : ℕ) (entries : Option (List ℕ)) (times : List ℕ) : Prop where
  none_iff : entries = none ↔ times = []
  live_eq : ∀ n, now ≤ n → live window n (entries.getD []) = live window n times

variable {attempts : Attempts} {time : ℕ}

private theorem call_isLocked (key : Text) :
    call maxAttempts window attempts (time, .isLocked key) key =
      (attempts key).map (keep window time) := by
  simp only [call, isLocked]
  cases hentries : attempts key <;> simp [hentries]

private theorem call_of_ne {c : LimiterCall} (h : key ≠ c.key) :
    call maxAttempts window attempts (time, c) key = attempts key := by
  cases c with
  | isLocked => exact (isLocked_spec ..).1 key h
  | recordFailure | clear => exact update_of_ne h _ _

theorem Remembers.call {now : ℕ}
    (h : Remembers window now (attempts key) (recorded key history)) (htime : now ≤ time)
    (c : LimiterCall) :
    Remembers window time (call maxAttempts window attempts (time, c) key)
      (recorded key (history ++ [(time, c)])) := by
  have hlive : ∀ n, time ≤ n → live window n ((attempts key).getD []) =
      live window n (recorded key history) := fun n hn => h.live_eq n (Nat.le_trans htime hn)
  rw [recorded, filter_append]
  rcases eq_or_ne key c.key with rfl | hne
  · rw [filter_cons_of_pos (by simp), filter_nil, foldl_concat, ← recorded]
    cases c with
    | isLocked key =>
      rw [LimiterCall.key] at *
      rw [call_isLocked]
      refine ⟨Option.map_eq_none_iff.trans h.none_iff, fun n hn => ?_⟩
      rw [← hlive n hn]
      cases attempts key with
      | none => rfl
      | some entries => exact live_keep hn entries
    | recordFailure key =>
      change Remembers window time (update attempts key _ key) _
      rw [update_self]
      refine ⟨by simp, fun n hn => ?_⟩
      rw [Option.getD_some, live_append, live_append, live_keep hn]
      exact congrArg (· + _) (hlive n hn)
    | clear key =>
      change Remembers window time (update attempts key none key) _
      rw [update_self]
      exact ⟨by simp, fun _ _ => rfl⟩
  · rw [filter_cons_of_neg (by simpa using hne.symm), filter_nil, append_nil, call_of_ne hne]
    exact ⟨h.none_iff, hlive⟩

theorem remembers_limiterAfter {t : ℕ} (h : (history.map Prod.fst ++ [t]).Pairwise (· ≤ ·)) :
    Remembers window t (limiterAfter maxAttempts window history key) (recorded key history) := by
  induction history using reverseRecOn generalizing t with
  | nil => exact ⟨by simp [limiterAfter, recorded], fun _ _ => rfl⟩
  | append_singleton history event ih =>
    obtain ⟨hbefore, -, hlast⟩ := pairwise_append.1 h
    have hevent : event.1 ≤ t := hlast event.1 (by simp) t mem_cons_self
    rw [map_append] at hbefore
    obtain ⟨hnone, hlive⟩ : Remembers window event.1 (call maxAttempts window _ event key) _ :=
      (ih hbefore).call (Nat.le_refl _) event.2
    rw [limiterAfter, foldl_concat]
    exact ⟨hnone, fun n hn => hlive n (Nat.le_trans hevent hn)⟩

/-- A key is locked at `t` exactly when it has failures since it was last cleared and `maxAttempts`
of them are less than a window before `t`. -/
theorem isLocked_iff_recorded (maxAttempts window : ℕ) {history : List (ℕ × LimiterCall)} {t : ℕ}
    (h : (history.map Prod.fst ++ [t]).Pairwise (· ≤ ·)) (key : Text) :
    (isLocked maxAttempts window t (limiterAfter maxAttempts window history) key).1 ↔
      recorded key history ≠ [] ∧
        maxAttempts ≤ (recorded key history).countP fun time => t < time + window := by
  obtain ⟨hnone, hlive⟩ := @remembers_limiterAfter maxAttempts window key _ _ h
  rw [isLocked]
  cases hentries : limiterAfter maxAttempts window history key with
  | none => simp [hnone.1 hentries]
  | some entries =>
    rw [hentries] at hnone hlive
    have hne : recorded key history ≠ [] := fun hnil => nomatch hnone.2 hnil
    rw [← live, ← hlive t (Nat.le_refl _), ← length_keep]
    simp [hne]

theorem isLocked_iff_recorded_twice :
    (isLocked 2 60 50 (limiterAfter 2 60 [(0, .recordFailure ['a']), (30, .recordFailure ['a'])])
      ['a']).1 :=
  (isLocked_iff_recorded 2 60 (by decide) ['a']).2 (by decide)

/-- Where no failure is needed, a key without failures is not locked all the same. -/
theorem not_isLocked_of_zero :
    (isLocked 0 60 5 (limiterAfter 0 60 []) ['a']).1 = false ∧
      0 ≤ (recorded ['a'] []).countP fun time => 5 < time + 60 := by
  decide

end Abyssal.Auth
