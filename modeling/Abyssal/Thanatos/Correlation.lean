import Abyssal.Thanatos.Scan

/-!
# The correlation checks

Three rules look at the recent events: many of high severity on the scanned host, events on several
hosts that name one source address, and on several that name one account. An alert is a row with the
source `correlation` and a message. A host that has such a row within the window is passed over. The
rule for one host sends its message whether or not the row went in.

## Main results

* `driftsPersisted_iff_newContent`: the drifts that become rows.
-/

namespace Abyssal.Thanatos

open Text Table

/-! ### Raising an alert -/

structure Alert where
  host : HostId
  label : Text
  rawLine : Text
  subject : Text

namespace Alert

def finding (setup : Setup) (alert : Alert) : Finding where
  source := correlationSource
  severity := .critical
  label := alert.label
  technique := setup.techniqueFor alert.label
  rawLine := alert.rawLine
  origin := .correlation

def event (setup : Setup) (scan : Scan) (alert : Alert) : Event :=
  setup.event scan.now alert.host (alert.finding setup)

def notification (scan : Scan) (alert : Alert) : Notification where
  about := alert.host
  subject := alert.subject
  body := alert.rawLine
  severity := .critical
  recipients := scan.recipients

end Alert

namespace Store

def recent (setup : Setup) (scan : Scan) (s : Store) (host : HostId) : Bool :=
  s.events.hasRecentCorrelationEvent setup scan.now host s.settings.windowMinutes

/-- The message of an alert goes out, if there is anyone to receive it. -/
def notify (scan : Scan) (s : Store) (alert : Alert) : Store :=
  if scan.recipients = [] then s
  else { s with dispatched := alert.notification scan :: s.dispatched }

/-- An alert is raised, unless the host has a recent finding. The message goes out if the row
went in, or always. -/
def raise (setup : Setup) (scan : Scan) (always : Bool) (s : Store) (alert : Alert) :
    Store × Bool :=
  if s.recent setup scan alert.host then (s, false)
  else
    let (events, inserted) := s.events.insertIfNew (alert.event setup scan)
    let s := { s with events := events }
    if inserted || always then (s.notify scan alert, true) else (s, false)

end Store

/-! ### The rule for one host -/

def hostAlert (scan : Scan) (settings : Settings) (recentHigh : ℕ) : Alert where
  host := scan.host
  label := "Repeated high-severity security events"
  rawLine := ofNat recentHigh ++ " high-or-critical security event(s) on \"" ++
    scan.hostName ++ "\" within the last " ++ ofNat settings.windowMinutes ++
    " minutes (threshold: " ++ ofNat settings.threshold ++ ")."
  subject := "[Thanatos] Security alert on " ++ scan.hostName

variable (setup : Setup)

/-- The number of high or critical events of a host within the window. -/
def Store.recentHigh (scan : Scan) (s : Store) : ℕ :=
  s.events.countHighSeveritySince setup scan.now scan.host s.settings.windowMinutes

def checkAndRaiseAlert (scan : Scan) (s : Store) : Store × Bool :=
  if s.recentHigh setup scan < s.settings.threshold then (s, false)
  else s.raise setup scan true (hostAlert scan s.settings (s.recentHigh setup scan))

/-! ### The rules across hosts -/

/-- The first token of a line that is an address, or whose part after the last equals sign
is. -/
def extractSourceIp (rawLine : Text) : Option Text :=
  (words rawLine).findSome? fun token =>
    (setup.parseAddress token).or (setup.parseAddress ((splitOn '=' token).getLastD token))

def extractUsername (rawLine : Text) : Option Text :=
  let account := (splitAtText "Account=" rawLine).bind fun (_, rest) =>
    let name := trim ((splitOn '\t' rest).headD [])
    if name = [] then none else some name
  match account with
  | some name => some name
  | none =>
    let phrases : List Text := ["invalid user ", "for user ", " for "]
    (phrases.findSome? fun phrase => splitAtText phrase rawLine).bind fun (_, rest) =>
      (words rest).head?

def enterHost (groups : List (Text × List HostId)) (key : Text) (host : HostId) :
    List (Text × List HostId) :=
  if groups.any (·.1 = key) then
    groups.map fun group => if group.1 = key then (key, group.2.insert host) else group
  else groups ++ [(key, [host])]

/-- The hosts on which events name a key, for each key. -/
def groupHosts (extract : Text → Option Text) (rows : List (HostId × Text)) :
    List (Text × List HostId) :=
  rows.foldl (fun groups (host, rawLine) =>
    (extract rawLine).elim groups fun key => enterHost groups key host) []

structure CrossHostRule where
  extract : Setup → Text → Option Text
  label : Text
  rawLine (key : Text) (hosts windowMinutes threshold : ℕ) : Text

def burstRule : CrossHostRule where
  extract := extractSourceIp
  label := "Cross-host credential-stuffing pattern"
  rawLine key hosts windowMinutes threshold :=
    key ++ " triggered high-or-critical security events on " ++ ofNat hosts ++
      " distinct host(s) within the last " ++ ofNat windowMinutes ++
      " minutes (threshold: " ++ ofNat threshold ++ ")."

def usernameRule : CrossHostRule where
  extract := fun _ => extractUsername
  label := "Cross-host account-targeting pattern"
  rawLine key hosts windowMinutes threshold :=
    "Account \"" ++ key ++
      "\" was targeted by high-or-critical security events on " ++ ofNat hosts ++
      " distinct host(s) within the last " ++ ofNat windowMinutes ++
      " minutes (threshold: " ++ ofNat threshold ++ ")."

def raiseNext (scan : Scan) (acc : Store × Bool) (alert : Alert) : Store × Bool :=
  let (s, raised) := acc.1.raise setup scan false alert
  (s, acc.2 || raised)

namespace CrossHostRule

def alert (rule : CrossHostRule) (settings : Settings) (key : Text) (hosts : List HostId)
    (host : HostId) : Alert where
  host := host
  label := rule.label
  rawLine := rule.rawLine key hosts.length settings.windowMinutes settings.crossHostThreshold
  subject := "[Thanatos] Cross-host security alert"

/-- One for each host of each group that is large enough, its size taken as a number of 32 bits. -/
def alerts (scan : Scan) (rule : CrossHostRule) (s : Store) : List Alert :=
  let rows := s.events.listRecentHighSeverityAllHosts setup scan.now s.settings.windowMinutes
  let groups := setup.arrange (groupHosts (rule.extract setup) rows)
  (groups.filter fun (_, hosts) =>
    ¬hosts.length % 4294967296 < s.settings.crossHostThreshold).flatMap
    fun (key, hosts) => (setup.arrange hosts).map (rule.alert s.settings key hosts)

/-- The alerts that the rule calls for are raised, and whether there was one. -/
def check (scan : Scan) (rule : CrossHostRule) (s : Store) : Store × Bool :=
  (rule.alerts setup scan s).foldl (raiseNext setup scan) (s, false)

end CrossHostRule

def checkCrossHostBurst (scan : Scan) (s : Store) : Store × Bool :=
  burstRule.check setup scan s

def checkCrossHostUsernameReuse (scan : Scan) (s : Store) : Store × Bool :=
  usernameRule.check setup scan s

/-! ### The ingestion of a scan -/

def informationalText (messages : List Text) : Option Text :=
  if messages = [] then none else some (['\n'].intercalate messages)

/-- The output of a scan is stored and the rules are checked. The result has the number of rows that
went in, the agent's message, and whether there was an alert. -/
def ingestScan (scan : Scan) (s : Store) : Store × Option (ℕ × Option Text × Bool) :=
  let p := persistScanOutput setup scan s
  if p.aborted then (p.store, none)
  else
    let (s, onHost) := checkAndRaiseAlert setup scan p.store
    let (s, byAddress) := checkCrossHostBurst setup scan s
    let (s, byAccount) := checkCrossHostUsernameReuse setup scan s
    (s, some (p.persisted, informationalText p.informational, onHost || byAddress || byAccount))

/-! ### The rows that the rules add -/

/-- Between two states, rows were added, and all by the correlation rules. -/
def Store.Raised (s s' : Store) : Prop :=
  ∃ raised : List Event, s'.events.rows = raised ++ s.events.rows ∧
    ∀ event ∈ raised, event.origin = .correlation

namespace Store.Raised

theorem of_eq {s s' : Store} (h : s'.events = s.events) : s.Raised s' :=
  ⟨[], by rw [h, List.nil_append], fun _ hmem => absurd hmem List.not_mem_nil⟩

theorem trans {s s' s'' : Store} (h : s.Raised s') (h' : s'.Raised s'') : s.Raised s'' := by
  obtain ⟨raised, heq, hall⟩ := h
  obtain ⟨raised', heq', hall'⟩ := h'
  refine ⟨raised' ++ raised, by rw [heq', heq, List.append_assoc], fun event hmem => ?_⟩
  exact (List.mem_append.1 hmem).elim (hall' event) (hall event)

theorem mem_iff {s s' : Store} (h : s.Raised s') {event : Event}
    (hevent : event.origin ≠ .correlation) : event ∈ s'.events.rows ↔ event ∈ s.events.rows := by
  obtain ⟨_, heq, hall⟩ := h
  rw [heq, List.mem_append]
  exact or_iff_right fun hmem => hevent (hall event hmem)

end Store.Raised

theorem Store.events_notify (scan : Scan) (s : Store) (alert : Alert) :
    (s.notify scan alert).events = s.events := by
  unfold notify
  split_ifs
  all_goals rfl

variable (setup : Setup) (scan : Scan)

theorem Store.raised_raise (always : Bool) (s : Store) (alert : Alert) :
    s.Raised (s.raise setup scan always alert).1 := by
  have hinsert : s.Raised { s with
      events := (s.events.insertIfNew (alert.event setup scan)).1 } := by
    by_cases hmem : (alert.event setup scan).lineHash ∈ s.events.hashes
    · rw [EventTable.insertIfNew_of_mem hmem]
      exact .of_eq rfl
    · refine ⟨[alert.event setup scan], addNew_of_notMem hmem, fun event hevent => ?_⟩
      rw [List.mem_singleton.1 hevent]
      rfl
  dsimp only [raise]
  split_ifs
  · exact .of_eq rfl
  · exact hinsert.trans (.of_eq (Store.events_notify scan _ alert))
  · exact hinsert

theorem CrossHostRule.raised_check (rule : CrossHostRule) (s : Store) :
    s.Raised (rule.check setup scan s).1 := by
  have hfold : ∀ (called : List Alert) (acc : Store × Bool),
      acc.1.Raised (called.foldl (raiseNext setup scan) acc).1 := by
    intro called
    induction called with
    | nil => exact fun _ => .of_eq rfl
    | cons alert _ ih =>
      exact fun acc => (acc.1.raised_raise setup scan false alert).trans (ih _)
  exact hfold _ (s, false)

theorem raised_ingestScan (s : Store) :
    (persistScanOutput setup scan s).store.Raised (ingestScan setup scan s).1 := by
  have hhost : ∀ s : Store, s.Raised (checkAndRaiseAlert setup scan s).1 := by
    intro s
    unfold checkAndRaiseAlert
    split_ifs
    · exact .of_eq rfl
    · exact s.raised_raise setup scan true _
  dsimp only [ingestScan]
  split_ifs
  · exact .of_eq rfl
  · exact (hhost _).trans ((burstRule.raised_check setup scan _).trans
      (usernameRule.raised_check setup scan _))

/-!
## Drift from the baselines

The baselines report a drift each time it happens; the event table takes a finding only if it has no
row with the same host, source and text. A file that changes, is restored and changes again to what
it had been is reported again and not recorded again.
-/

/-- No row has the hash of the finding, and the first finding of the scan with that hash
becomes the same row. -/
def NewContent (s : Store) (finding : Finding) : Prop :=
  let event := setup.event scan.now scan.host finding
  event.lineHash ∉ s.events.hashes ∧
    ∀ first, ((scanFindings setup scan s).map (setup.event scan.now scan.host)).find?
      (·.lineHash = event.lineHash) = some first → first = event

/-- Each drift that the baselines report, and that no active rule drops, becomes a new row of
high severity. -/
def DriftsPersisted (s : Store) : Prop :=
  ∀ finding ∈ scanDrifts setup scan s, s.suppressed setup scan finding = false →
    let event := setup.event scan.now scan.host finding
    event ∈ (ingestScan setup scan s).1.events.rows ∧ event ∉ s.events.rows ∧
      event.severity = .high

/-- The drifts become rows exactly if each has a content that is new. -/
theorem driftsPersisted_iff_newContent (s : Store) :
    DriftsPersisted setup scan s ↔
      ∀ finding ∈ scanDrifts setup scan s, s.suppressed setup scan finding = false →
        NewContent setup scan s finding := by
  refine forall₃_congr fun finding hdrift hsuppressed => ?_
  obtain ⟨hoffered, horigin⟩ :=
    (mem_scanFindings_drift setup scan s finding).2 ⟨hdrift, hsuppressed⟩
  have hhigh : finding.severity = .high := by
    have hshaped := shaped_of_mem_scanFindings setup scan hoffered
    rw [Finding.Shaped, horigin] at hshaped
    exact hshaped.1
  dsimp only [NewContent]
  set event := setup.event scan.now scan.host finding
  have hne : event.origin ≠ .correlation := by
    rw [show event.origin = .drift from horigin]
    nofun
  rw [(raised_ingestScan setup scan s).mem_iff hne, rows_persistScanOutput]
  constructor
  · rintro ⟨hin, hnot, -⟩
    obtain ⟨hhash, hfind⟩ := mem_addAll_and_notMem.1 ⟨hin, hnot⟩
    exact ⟨hhash, fun first hfirst => (Option.some.inj (hfind.symm.trans hfirst)).symm⟩
  · rintro ⟨hhash, hfirst⟩
    have hsome : (((scanFindings setup scan s).map (setup.event scan.now scan.host)).find?
        (·.lineHash = event.lineHash)).isSome := by
      rw [List.find?_isSome]
      exact ⟨event, List.mem_map_of_mem hoffered, decide_eq_true rfl⟩
    obtain ⟨first, hfind⟩ := Option.isSome_iff_exists.1 hsome
    rw [hfirst first hfind] at hfind
    obtain ⟨hin, hnot⟩ := mem_addAll_and_notMem.2 ⟨hhash, hfind⟩
    exact ⟨hin, hnot, hhigh⟩

/-- The watched file takes one hash, another, the first again, and the other again. -/
def fileScan (seconds : ℕ) (hash : String) : Scan :=
  scanOfWeb seconds ("fim\t/etc/passwd\t" ++ hash.toList)

set_option maxRecDepth 20000 in
/-- The file changes, is restored, and changes again. The third drift is reported and not recorded.
-/
theorem not_driftsPersisted_of_reverted :
    let s₁ := (ingestScan plainSetup (fileScan 1000 "aa") emptyStore).1
    let s₂ := (ingestScan plainSetup (fileScan 2000 "bb") s₁).1
    let s₃ := (ingestScan plainSetup (fileScan 3000 "aa") s₂).1
    let s₄ := (ingestScan plainSetup (fileScan 4000 "bb") s₃).1
    ¬DriftsPersisted plainSetup (fileScan 4000 "bb") s₃ ∧
      [s₁, s₂, s₃, s₄].map (·.events.rows.length) = [0, 1, 2, 2] := by
  refine ⟨fun h => ?_, by decide⟩
  have hevent := h (fileFinding plainSetup "/etc/passwd" "bb")
  exact absurd hevent (by decide)

end Abyssal.Thanatos
