import Mathlib.Data.List.MinMax
import Mathlib.Data.List.Dedup

/-!
# Thresholds on the metrics of a host

An evaluation looks at the last samples of each metric that has an enabled threshold and notifies
when a metric begins to breach one. Only whether the metric is firing is kept, so a threshold that
is breached while its metric is already firing because of another one is not reported.

## Main results

* `sound_iff_uncovered`: when each breach is reported.
-/

namespace Abyssal.Mortiscope

open List Nat

inductive Severity where
  | info
  | warning
  | critical

/-- `severity_rank`. -/
def Severity.rank : Severity → ℕ
  | info => 1
  | warning => 2
  | critical => 3

/-- A threshold on a metric `M`, whose samples are of type `V`. -/
structure Threshold (M V : Type) where
  id : ℕ
  metric : M
  /-- The comparator is `le`; any other one is read as `ge`. -/
  atMost : Bool
  threshold : V
  severity : Severity
  enabled : Bool

inductive Notification (M V : Type) where
  | breached (t : Threshold M V)
  | recovered (metric : M)

/-- The samples of each metric, the newest first, whether it is firing, and, read by nobody, what
was in sustained breach. -/
structure State (M V : Type) where
  thresholds : List (Threshold M V)
  samples : M → List V
  firing : M → Bool
  breachedBefore : List (ℕ × M)

variable {M V : Type} [DecidableEq M] (le : V → V → Bool) (sustained : ℕ)

def Threshold.breaches (t : Threshold M V) (value : V) : Bool :=
  if t.atMost then le value t.threshold else le t.threshold value

namespace State

variable (s : State M V)

def breaching (metric : M) : List (Threshold M V) :=
  s.thresholds.filter fun t => t.enabled && t.metric = metric &&
    ((s.samples metric).take sustained).all (t.breaches le)

/-- Whether the metric is firing then, and what is sent. Of equal severities `max_by_key` takes the
last. -/
def evaluateHostMetric (metric : M) : Bool × List (Notification M V) :=
  if (s.samples metric).length < sustained then (s.firing metric, [])
  else
    match (s.breaching le sustained metric).reverse.argmax (·.severity.rank), s.firing metric with
    | some t, false => (true, [.breached t])
    | none, true => (false, [.recovered metric])
    | _, firing => (firing, [])

def metrics : List M := ((s.thresholds.filter (·.enabled)).map (·.metric)).dedup

def InBreach (t : Threshold M V) : Prop :=
  sustained ≤ (s.samples t.metric).length ∧ t ∈ s.breaching le sustained t.metric

def evaluate : State M V where
  thresholds := s.thresholds
  samples := s.samples
  firing metric := if s.metrics.any (· = metric) then (s.evaluateHostMetric le sustained metric).1
    else s.firing metric
  breachedBefore := (s.metrics.flatMap fun metric =>
    if (s.samples metric).length < sustained then [] else s.breaching le sustained metric).map
      fun t => (t.id, t.metric)

def notifications : List (Notification M V) :=
  s.metrics.flatMap fun metric => (s.evaluateHostMetric le sustained metric).2

end State

inductive Event (M V : Type) where
  | sample (metric : M) (value : V)
  | edit (thresholds : List (Threshold M V))
  | evaluate

def step (s : State M V) : Event M V → State M V
  | .sample metric value =>
    { s with samples := Function.update s.samples metric (value :: s.samples metric) }
  | .edit thresholds => { s with thresholds := thresholds }
  | .evaluate => s.evaluate le sustained

def run (events : List (Event M V)) : State M V :=
  events.foldl (step le sustained) ⟨[], fun _ => [], fun _ => false, []⟩

structure Sound (s : State M V) : Prop where
  entered : ∀ t, s.InBreach le sustained t → (t.id, t.metric) ∉ s.breachedBefore →
    ∃ u, .breached u ∈ s.notifications le sustained ∧ u.metric = t.metric ∧
      t.severity.rank ≤ u.severity.rank
  stays : ∀ t, (t.id, t.metric) ∈ s.breachedBefore → .breached t ∉ s.notifications le sustained
  firing : ∀ metric, (s.evaluate le sustained).firing metric = true ↔
    ∃ t, t.metric = metric ∧ s.InBreach le sustained t

/-- The metric of a threshold that enters breach is not firing yet, and one that is firing has an
enabled threshold. -/
structure Uncovered (s : State M V) : Prop where
  entering : ∀ t, s.InBreach le sustained t → (t.id, t.metric) ∉ s.breachedBefore →
    s.firing t.metric = false
  enabled : ∀ metric, s.firing metric = true → metric ∈ s.metrics

/-! ### One evaluation -/

variable {le sustained} {s : State M V} {metric : M} {t : Threshold M V}

open State

theorem State.mem_breaching : t ∈ s.breaching le sustained metric ↔
    t ∈ s.thresholds ∧ t.enabled ∧ t.metric = metric ∧
      ∀ v ∈ (s.samples metric).take sustained, t.breaches le v := by
  simp [breaching, and_assoc]

theorem State.mem_metrics : metric ∈ s.metrics ↔
    ∃ t ∈ s.thresholds, t.enabled ∧ t.metric = metric := by
  simp [metrics, and_assoc]

theorem State.InBreach.mem_metrics (h : s.InBreach le sustained t) : t.metric ∈ s.metrics := by
  obtain ⟨hmem, henabled, -⟩ := mem_breaching.1 h.2
  exact State.mem_metrics.2 ⟨t, hmem, henabled, rfl⟩

variable (le) in
theorem evaluateHostMetric_cases (h : sustained ≤ (s.samples metric).length) :
    (s.breaching le sustained metric = [] ∧ (s.evaluateHostMetric le sustained metric).1 = false ∧
      ∀ u, .breached u ∉ (s.evaluateHostMetric le sustained metric).2) ∨
    ∃ u ∈ s.breaching le sustained metric,
      (∀ t ∈ s.breaching le sustained metric, t.severity.rank ≤ u.severity.rank) ∧
        s.evaluateHostMetric le sustained metric =
          (true, if s.firing metric then [] else [.breached u]) := by
  rw [evaluateHostMetric, if_neg (not_lt.2 h)]
  cases hmax : (s.breaching le sustained metric).reverse.argmax (·.severity.rank) with
  | none =>
    refine .inl ⟨reverse_eq_nil_iff.1 (argmax_eq_none.1 hmax), ?_⟩
    cases s.firing metric <;> simp
  | some u =>
    refine .inr ⟨u, mem_reverse.1 (argmax_mem hmax), fun t ht => ?_, ?_⟩
    · exact le_of_mem_argmax (f := fun t : Threshold M V => t.severity.rank)
        (mem_reverse.2 ht) hmax
    · cases s.firing metric <;> rfl

theorem evaluateHostMetric_of_lt (h : (s.samples metric).length < sustained) :
    s.evaluateHostMetric le sustained metric = (s.firing metric, []) :=
  if_pos h

theorem breached_not_mem_of_firing (h : s.firing metric) (u : Threshold M V) :
    .breached u ∉ (s.evaluateHostMetric le sustained metric).2 := by
  rcases lt_or_ge (s.samples metric).length sustained with hlt | hge
  · rw [evaluateHostMetric_of_lt hlt]
    exact not_mem_nil
  · rcases evaluateHostMetric_cases le hge with ⟨-, -, hnone⟩ | ⟨v, -, -, heq⟩
    · exact hnone u
    · rw [heq, h]
      exact not_mem_nil

theorem breached_mem_notifications {u : Threshold M V} :
    .breached u ∈ s.notifications le sustained ↔
      u.metric ∈ s.metrics ∧ .breached u ∈ (s.evaluateHostMetric le sustained u.metric).2 := by
  rw [notifications, mem_flatMap]
  constructor
  · rintro ⟨metric, hmetric, hu⟩
    rcases lt_or_ge (s.samples metric).length sustained with hlt | hge
    · rw [evaluateHostMetric_of_lt hlt] at hu
      cases hu
    rcases evaluateHostMetric_cases le hge with ⟨-, -, hnone⟩ | ⟨v, hv, -, heq⟩
    · exact absurd hu (hnone u)
    · have hmetricEq : u.metric = metric := by
        rw [heq] at hu
        cases hfiring : s.firing metric with
        | true => simp [hfiring] at hu
        | false =>
          simp only [hfiring, Bool.false_eq_true, if_false, mem_singleton,
            Notification.breached.injEq] at hu
          rw [hu]
          exact (mem_breaching.1 hv).2.2.1
      exact hmetricEq ▸ ⟨hmetric, hu⟩
  · rintro ⟨hmetric, hu⟩
    exact ⟨u.metric, hmetric, hu⟩

theorem firing_evaluate (metric : M) : (s.evaluate le sustained).firing metric =
    if metric ∈ s.metrics then (s.evaluateHostMetric le sustained metric).1
    else s.firing metric := by
  simp [evaluate]

theorem mem_breachedBefore_evaluate {p : ℕ × M} :
    p ∈ (s.evaluate le sustained).breachedBefore ↔
      ∃ t, s.InBreach le sustained t ∧ (t.id, t.metric) = p := by
  simp only [evaluate, mem_map, mem_flatMap]
  refine exists_congr fun t => and_congr_left fun _ => ?_
  constructor
  · rintro ⟨metric, -, ht⟩
    split_ifs at ht with hlt
    · cases ht
    · obtain rfl := (mem_breaching.1 ht).2.2.1
      exact ⟨not_lt.1 hlt, ht⟩
  · intro ht
    exact ⟨t.metric, ht.mem_metrics, by rw [if_neg (not_lt.2 ht.1)]; exact ht.2⟩

/-! ### Runs -/

variable (le sustained s) in
/-- What was in breach at the last evaluation is firing, and what is firing has been sampled. -/
structure Consistent : Prop where
  before : ∀ p ∈ s.breachedBefore, s.firing p.2 = true
  sampled : ∀ metric, s.firing metric = true → sustained ≤ (s.samples metric).length

theorem Consistent.step (h : Consistent sustained s) (event : Event M V) :
    Consistent sustained (step le sustained s event) := by
  cases event with
  | sample metric =>
    refine ⟨h.before, fun other hfiring => (h.sampled other hfiring).trans ?_⟩
    rcases eq_or_ne other metric with rfl | hne
    · simp [Mortiscope.step]
    · simp [Mortiscope.step, hne]
  | edit => exact ⟨h.before, h.sampled⟩
  | evaluate =>
    constructor
    · intro p hp
      obtain ⟨_, ht, rfl⟩ := mem_breachedBefore_evaluate.1 hp
      rw [Mortiscope.step, firing_evaluate, if_pos ht.mem_metrics]
      rcases evaluateHostMetric_cases le ht.1 with ⟨hnil, -⟩ | ⟨u, -, -, heq⟩
      · cases hnil ▸ ht.2
      · rw [heq]
    · intro metric hfiring
      rcases lt_or_ge (s.samples metric).length sustained with hlt | hge
      · rw [Mortiscope.step, firing_evaluate, evaluateHostMetric_of_lt hlt, ite_self] at hfiring
        exact h.sampled metric hfiring
      · exact hge

private theorem consistent_run (events : List (Event M V)) :
    Consistent sustained (run le sustained events) := by
  induction events using reverseRecOn with
  | nil => exact ⟨nofun, nofun⟩
  | append_singleton _ event ih =>
    rw [run, foldl_concat]
    exact ih.step event

variable (le) in
/-- An evaluation does what it should exactly if the metrics of the thresholds that enter sustained
breach are not firing yet, and those that are firing have an enabled threshold. -/
theorem sound_iff_uncovered (sustained : ℕ) (events : List (Event M V)) :
    Sound le sustained (run le sustained events) ↔
      Uncovered le sustained (run le sustained events) := by
  have hinv : Consistent sustained (run le sustained events) := consistent_run events
  generalize run le sustained events = s at hinv ⊢
  constructor
  · intro h
    constructor
    · intro t ht hnew
      obtain ⟨u, hu, hmetric, -⟩ := h.entered t ht hnew
      obtain ⟨-, hsent⟩ := breached_mem_notifications.1 hu
      rw [← hmetric, Bool.eq_false_iff]
      intro hfiring
      exact breached_not_mem_of_firing hfiring u hsent
    · intro metric hfiring
      by_contra hnone
      have hafter := (h.firing metric).1 (by rw [firing_evaluate, if_neg hnone, hfiring])
      obtain ⟨t, rfl, ht⟩ := hafter
      exact hnone ht.mem_metrics
  · intro h
    constructor
    · intro t ht hnew
      rcases evaluateHostMetric_cases le ht.1 with ⟨hnil, -⟩ | ⟨u, hu, hmax, heq⟩
      · cases hnil ▸ ht.2
      · have hmetric := (mem_breaching.1 hu).2.2.1
        refine ⟨u, breached_mem_notifications.2 ⟨hmetric ▸ ht.mem_metrics, ?_⟩, hmetric,
          hmax t ht.2⟩
        rw [hmetric, heq, h.entering t ht hnew]
        exact mem_singleton_self _
    · intro t hbefore hsent
      obtain ⟨-, hsent⟩ := breached_mem_notifications.1 hsent
      exact breached_not_mem_of_firing (hinv.before _ hbefore) t hsent
    · intro metric
      rw [firing_evaluate]
      split_ifs with hmetric
      · rcases lt_or_ge (s.samples metric).length sustained with hlt | hge
        · rw [evaluateHostMetric_of_lt hlt]
          refine iff_of_false (fun hf => ?_) ?_
          · exact absurd (hinv.sampled metric hf) (not_le.2 hlt)
          · rintro ⟨t, rfl, ht⟩
            exact absurd ht.1 (not_le.2 hlt)
        · rcases evaluateHostMetric_cases le hge with ⟨hnil, hfalse, -⟩ | ⟨u, hu, -, heq⟩
          · refine iff_of_false (by rw [hfalse]; exact Bool.false_ne_true) ?_
            rintro ⟨t, rfl, ht⟩
            cases hnil ▸ ht.2
          · have hu' := (mem_breaching.1 hu).2.2.1
            exact iff_of_true (by rw [heq]) ⟨u, hu', by rw [InBreach, hu']; exact ⟨hge, hu⟩⟩
      · refine iff_of_false (fun hf => hmetric (h.enabled metric hf)) ?_
        rintro ⟨_, rfl, ht⟩
        exact hmetric ht.mem_metrics

def cpuThresholds (enabled : Bool) : List (Threshold Unit ℕ) :=
  [⟨0, (), false, 80, .warning, enabled⟩, ⟨1, (), false, 95, .critical, enabled⟩]

/-- A critical threshold is breached while a warning is firing; and a metric is firing whose
thresholds are disabled. -/
theorem not_sound_of_escalation_and_of_disabling :
    ¬ Sound (fun a b => decide (a ≤ b)) 1 (run (fun a b => decide (a ≤ b)) 1
        [.edit (cpuThresholds true), .sample () 85, .evaluate, .sample () 97]) ∧
      ¬ Sound (fun a b => decide (a ≤ b)) 1 (run (fun a b => decide (a ≤ b)) 1
        [.edit (cpuThresholds true), .sample () 85, .evaluate, .edit (cpuThresholds false)]) := by
  constructor
  · intro h
    obtain ⟨u, hu, -⟩ := h.entered ⟨1, (), false, 95, .critical, true⟩
      ⟨by decide, mem_breaching.2 ⟨mem_cons_of_mem _ mem_cons_self, rfl, rfl,
        by decide⟩⟩ (by decide)
    have hfiring : (run (fun a b => decide (a ≤ b)) 1 [.edit (cpuThresholds true), .sample () 85,
        .evaluate, .sample () 97]).firing () := by decide
    exact breached_not_mem_of_firing hfiring u (breached_mem_notifications.1 hu).2
  · intro h
    obtain ⟨_, -, ht⟩ := (h.firing ()).1 (by decide)
    exact absurd (mem_metrics.1 ht.mem_metrics)
      (by simp [run, step, evaluate, cpuThresholds])

end Abyssal.Mortiscope
