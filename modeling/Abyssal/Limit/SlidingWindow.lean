import Mathlib.Data.List.Basic

/-!
# Events within a sliding window

An event counts at every time before the end of the window that it opens. If an event is added only
while fewer than so many count, then no window of that length, wherever it begins, has more than so
many events.
-/

namespace Abyssal.Limit

open List

variable (w : ℕ)

def live (n : ℕ) (ts : List ℕ) : ℕ := ts.countP fun t => n < t + w

def keep (n : ℕ) (ts : List ℕ) : List ℕ := ts.filter fun t => n < t + w

def within (T : ℕ) (ts : List ℕ) : ℕ := ts.countP fun t => T ≤ t ∧ t < T + w

variable {w} {n m : ℕ} {ts : List ℕ}

theorem length_keep (n : ℕ) (ts : List ℕ) : (keep w n ts).length = live w n ts :=
  countP_eq_length_filter.symm

theorem live_append (n : ℕ) (ts ts' : List ℕ) : live w n (ts ++ ts') = live w n ts + live w n ts' :=
  countP_append

theorem live_singleton (n t : ℕ) : live w n [t] = if n < t + w then 1 else 0 := by
  rw [live, countP_singleton]
  simp

theorem live_cons (n t : ℕ) (ts : List ℕ) : live w n (t :: ts) = live w n [t] + live w n ts :=
  live_append n [t] ts

theorem live_anti (h : n ≤ m) (ts : List ℕ) : live w m ts ≤ live w n ts := by
  refine countP_mono_left fun t _ ht => ?_
  rw [decide_eq_true_eq] at ht ⊢
  omega

theorem live_keep (h : n ≤ m) (ts : List ℕ) : live w m (keep w n ts) = live w m ts := by
  rw [live, keep, countP_filter]
  refine countP_congr fun t _ => ?_
  rw [Bool.and_eq_true, decide_eq_true_eq, decide_eq_true_eq]
  omega

theorem live_eq_zero (hts : ∀ t ∈ ts, t ≤ m) (h : m + w ≤ n) : live w n ts = 0 := by
  refine countP_eq_zero.2 fun t ht => ?_
  have hle := hts t ht
  rw [decide_eq_true_eq]
  omega

theorem within_le_live {T : ℕ} (h : n < T + w) (ts : List ℕ) : within w T ts ≤ live w n ts := by
  refine countP_mono_left fun t _ ht => ?_
  rw [decide_eq_true_eq] at ht ⊢
  omega

theorem within_cons_le {k : ℕ} (hall : ∀ T, within w T ts ≤ k) (hlive : live w n ts < k) (T : ℕ) :
    within w T (n :: ts) ≤ k := by
  rw [within, countP_cons, ← within]
  split_ifs with hn
  · have hle := within_le_live (of_decide_eq_true hn).2 ts
    omega
  · exact hall T

end Abyssal.Limit
