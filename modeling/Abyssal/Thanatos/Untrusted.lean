import Abyssal.Thanatos.Alerts
import Abyssal.Machine.Guarded

/-!
# What an agent can make look like a correlation finding

An agent names source and severity of the lines it classifies, and the control plane takes both as
they are. A line with the source `correlation` starts the cooldown of the host that sent it.

## Main results

* `addsGenuine_iff_harmless`: the lines that do no harm.
-/

namespace Abyssal.Thanatos

open Table List Bool

variable (setup : Setup)

namespace Event

/-- If the row has the source `correlation`, or is critical, a correlation rule added it, or for the
latter a critical indicator. -/
def Genuine (event : Event) : Prop :=
  (event.isCorrelation setup = true → event.origin = .correlation) ∧
    (event.severity = .critical → event.origin = .correlation ∨ event.origin = .ioc .critical)

instance (event : Event) : Decidable (event.Genuine setup) :=
  inferInstanceAs (Decidable (_ ∧ _))

end Event

def AddsGenuine (scan : Scan) (s : Store) : Prop :=
  ∀ event ∈ (ingestScan setup scan s).1.events.rows, event ∉ s.events.rows →
    event.Genuine setup

/-- The lines that go in have neither the source `correlation` nor critical severity. -/
def Harmless (scan : Scan) (s : Store) : Prop :=
  ∀ finding ∈ scanFindings setup scan s, finding.origin = .classified →
    (setup.event scan.now scan.host finding).lineHash ∉ s.events.hashes →
    ((scanFindings setup scan s).map (setup.event scan.now scan.host)).find?
      (·.lineHash = (setup.event scan.now scan.host finding).lineHash) =
        some (setup.event scan.now scan.host finding) →
    (setup.event scan.now scan.host finding).isCorrelation setup = false ∧
      finding.severity ≠ .critical

private theorem take_own : ∀ source ∈ [fileSource, networkSource, moduleSource, iocSource],
    source.take 64 = source := by
  decide

private theorem genuine_of_shaped {finding : Finding} (h : finding.Shaped)
    (horigin : finding.origin ≠ .classified) (now : ℕ) (host : HostId) :
    (setup.event now host finding).Genuine setup := by
  have hsource : finding.source ∈ [fileSource, networkSource, moduleSource, iocSource] →
      (setup.event now host finding).isCorrelation setup = false := by
    intro hmem
    change setup.sameText (finding.source.take 64) correlationSource = false
    rw [take_own _ hmem]
    exact setup.sameText_own _ hmem
  unfold Finding.Shaped at h
  cases hfinding : finding.origin with
  | classified => exact absurd hfinding horigin
  | drift =>
    rw [hfinding] at h
    have hown := hsource (mem_append_left [iocSource] h.2)
    refine ⟨fun hmark => absurd (hown.symm.trans hmark) false_ne_true, fun hcritical => ?_⟩
    cases h.1.symm.trans hcritical
  | ioc configured =>
    rw [hfinding] at h
    have hown := hsource (by rw [h.2]; decide)
    refine ⟨fun hmark => absurd (hown.symm.trans hmark) false_ne_true, fun hcritical => ?_⟩
    have hconfigured : configured = .critical := h.1.symm.trans hcritical
    exact .inr (hfinding.trans (hconfigured ▸ rfl))
  | correlation =>
    rw [hfinding] at h
    exact h.elim

theorem addsGenuine_iff (scan : Scan) (s : Store) :
    AddsGenuine setup scan s ↔ Harmless setup scan s := by
  have hraised := raised_ingestScan setup scan s
  have hrows := rows_persistScanOutput setup scan s
  constructor
  · intro h finding hmem horigin hhash hfirst
    have hnew := mem_addAll_and_notMem.2 ⟨hhash, hfirst⟩
    rw [← hrows] at hnew
    have hother : (setup.event scan.now scan.host finding).origin ≠ .correlation := by
      change finding.origin ≠ _
      rw [horigin]
      nofun
    have hgenuine := h _ ((hraised.mem_iff hother).2 hnew.1) hnew.2
    refine ⟨eq_false_iff.2 fun hmark => hother (hgenuine.1 hmark), fun hcritical => ?_⟩
    rcases hgenuine.2 hcritical with heq | heq
    · exact hother heq
    · cases horigin.symm.trans heq
  · intro h event hmem hnot
    by_cases hevent : event.origin = .correlation
    · exact ⟨fun _ => hevent, fun _ => .inl hevent⟩
    · rw [hraised.mem_iff hevent, hrows] at hmem
      obtain ⟨hhash, hfirst⟩ := mem_addAll_and_notMem.1 ⟨hmem, hnot⟩
      obtain ⟨finding, hoffered, rfl⟩ := mem_map.1 (mem_of_find?_eq_some hfirst)
      by_cases horigin : finding.origin = .classified
      · obtain ⟨hsource, hseverity⟩ := h finding hoffered horigin hhash hfirst
        exact ⟨fun hmark => absurd (hsource.symm.trans hmark) false_ne_true,
          fun hcritical => absurd hcritical hseverity⟩
      · exact genuine_of_shaped setup (shaped_of_mem_scanFindings setup scan hoffered) horigin _ _

/-! ### Runs -/

inductive Activity where
  | ingest (scan : Scan)
  | prune (now days : ℕ)
  | configure (rules : List SuppressionRule) (iocs : List Ioc) (settings : Settings)

def act (s : Store) : Activity → Store
  | .ingest scan => (ingestScan setup scan s).1
  | .prune now days => { s with events := s.events.pruneOlderThan now days }
  | .configure rules iocs settings => { s with rules := rules, iocs := iocs, settings := settings }

def ActsHarmlessly (s : Store) : Activity → Prop
  | .ingest scan => Harmless setup scan s
  | _ => True

private theorem genuine_act {s : Store} {activity : Activity}
    (h : ∀ event ∈ s.events.rows, event.Genuine setup) (hok : ActsHarmlessly setup s activity) :
    ∀ event ∈ (act setup s activity).events.rows, event.Genuine setup := by
  intro event hmem
  cases activity with
  | ingest scan =>
    by_cases hold : event ∈ s.events.rows
    · exact h event hold
    · exact (addsGenuine_iff setup scan s).2 hok event hmem hold
  | prune => exact h event (mem_filter.1 hmem).1
  | configure => exact h event hmem

/-- The text an agent sends adds only genuine rows if and only if it is harmless. In a harmless run,
a host has a recent correlation finding only if a rule raised one for it. -/
theorem addsGenuine_iff_harmless :
    (∀ scan s, AddsGenuine setup scan s ↔ Harmless setup scan s) ∧
    ∀ s₀ s, Machine.Reached (act setup) (ActsHarmlessly setup) s₀ s →
      (∀ event ∈ s₀.events.rows, event.Genuine setup) →
      (∀ event ∈ s.events.rows, event.Genuine setup) ∧
      ∀ scan host, s.recent setup scan host →
        ∃ event ∈ s.events.rows, event.host = host ∧ event.origin = .correlation ∧
          event.since scan.now s.settings.windowMinutes := by
  refine ⟨addsGenuine_iff setup, fun s₀ s hreached h₀ => ?_⟩
  have hgenuine : ∀ event ∈ s.events.rows, event.Genuine setup :=
    hreached.inv h₀ fun s activity h hok => genuine_act setup h hok
  refine ⟨hgenuine, fun scan host hrecent => ?_⟩
  obtain ⟨event, hmem, hevent⟩ := any_eq_true.1 hrecent
  rw [and_eq_true, and_eq_true, decide_eq_true_eq] at hevent
  obtain ⟨⟨hhost, hmark⟩, hsince⟩ := hevent
  exact ⟨event, hmem, hhost, (hgenuine event hmem).1 hmark, hsince⟩

set_option maxRecDepth 20000 in
theorem addsGenuine_iff_harmless_firstBurst :
    Harmless plainSetup firstBurst emptyStore ∧
      ∃ event ∈ (ingestScan plainSetup firstBurst emptyStore).1.events.rows,
        event.host = 1 ∧ event.origin = .correlation ∧ event.since firstBurst.now 5 := by
  have hharmless : Harmless plainSetup firstBurst emptyStore := by
    unfold Harmless
    decide
  have hreached : Machine.Reached (act plainSetup) (ActsHarmlessly plainSetup) emptyStore
      (ingestScan plainSetup firstBurst emptyStore).1 :=
    .next (e := Activity.ingest firstBurst) .start hharmless
  refine ⟨hharmless, ((addsGenuine_iff_harmless plainSetup).2 _ _ hreached ?_).2 firstBurst 1 ?_⟩
  · exact nofun
  · decide

def forgedScan : Scan :=
  { firstBurst with
    stdout := "low\tNotice\tcorrelation\tNothing to see\n" ++ firstBurst.stdout }

set_option maxRecDepth 20000 in
/-- The line is recorded as if it were a correlation finding, and the alert for the burst stays
out. -/
theorem not_addsGenuine_of_forgedScan :
    ¬AddsGenuine plainSetup forgedScan emptyStore ∧
      (ingestScan plainSetup firstBurst emptyStore).1.messages 1 = 1 ∧
      (ingestScan plainSetup forgedScan emptyStore).1.messages 1 = 0 := by
  refine ⟨fun h => ?_, by decide, by decide⟩
  have hline := h (plainSetup.event forgedScan.now 1
    (classifiedFinding plainSetup .low "Notice" correlationSource "Nothing to see"))
  exact absurd (hline (by decide) (by decide)) (by decide)

end Abyssal.Thanatos
