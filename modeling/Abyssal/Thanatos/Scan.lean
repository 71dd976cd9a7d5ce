import Abyssal.Thanatos.Events

/-!
# The ingestion of scan output

An agent sends lines of fields separated by tabs: classified log lines, the hashes of the watched
files, and the ports and kernel modules it sees. Each finding that no rule drops is offered to the
event table, followed by the matches with indicators of compromise. A value that the database
refuses ends the ingestion there; what was done before stays.
-/

namespace Abyssal.Thanatos

open Text Table List Function

/-! ### Lines -/

inductive Line where
  | seen (inventory : Inventory) (key : Text)
  | offset (channel : Text) (recordId : ℕ)
  | fileHash (path hash : Text)
  | info (message : Text)
  | classified (severity : Severity) (label source rawLine : Text)
  | other

/-- A line with four fields the first of which is a severity. -/
def readClassified (line : Text) : Line :=
  match splitN '\t' 4 line with
  | [severity, label, source, rawLine] =>
    (Severity.fromKey severity).elim .other fun severity =>
      .classified severity label source rawLine
  | _ => .other

def readSeen (inventory : Inventory) (key : Text) : Line :=
  if key = [] then .other else .seen inventory key

def readOffset (rest : Text) : Line :=
  match splitOnce '\t' rest with
  | some (channel, recordId) =>
    match parseU64 (trim recordId) with
    | some recordId => if channel = [] then .other else .offset channel recordId
    | none => .other
  | none => .other

def readFileHash (rest : Text) : Line :=
  (splitOnce '\t' rest).elim .other fun (path, hash) => .fileHash path hash

/-- What a line says. The kind of a line is told by its beginning. -/
def readLine (line : Text) : Line :=
  let kinds : List (Text × (Text → Line)) :=
    [("port\t", readSeen .ports), ("module\t", readSeen .modules),
      ("offset\t", readOffset), ("fim\t", readFileHash), ("info\t", .info)]
  let read := kinds.findSome? fun (kind, read) => (kind.isPrefixOf? line).map read
  read.getD (readClassified line)

/-! ### Findings -/

def fileFinding (setup : Setup) (path hash : Text) : Finding where
  source := fileSource
  severity := .high
  label := "File-integrity watch-list change"
  technique := setup.techniqueFor "File-integrity watch-list change"
  rawLine := path ++ " hash changed to " ++ hash
  origin := .drift

def seenFinding (setup : Setup) (key : Text) : Inventory → Finding
  | .ports =>
    { source := networkSource
      severity := .high
      label := "New listening port"
      technique := setup.techniqueFor "New listening port"
      rawLine := "New listening port: " ++ key
      origin := .drift }
  | .modules =>
    { source := moduleSource
      severity := .high
      label := "New kernel module/driver loaded"
      technique := setup.techniqueFor "New kernel module/driver loaded"
      rawLine := "New kernel module/driver loaded: " ++ key
      origin := .drift }

def classifiedFinding (setup : Setup) (severity : Severity) (label source rawLine : Text) :
    Finding where
  source := source
  severity := severity
  label := label
  technique := setup.techniqueFor label
  rawLine := rawLine
  origin := .classified

/-- A line as it is quoted in a finding about an indicator. -/
def truncateForIoc (text : Text) : Text :=
  if text.length ≤ 300 then text else text.take 300 ++ "..."

def iocFinding (source rawLine : Text) (ioc : Ioc) : Finding where
  source := iocSource
  severity := ioc.severity
  label := "Threat-intel IOC match (" ++ ioc.iocType.asKey ++ ")"
  technique := []
  rawLine := "IOC " ++ ioc.iocType.asKey ++ ' ' :: ioc.value ++ " (feed: " ++
    ioc.label.getD "manual" ++ ") matched in " ++ source ++ ": " ++
    truncateForIoc rawLine
  origin := .ioc ioc.severity

namespace Store

def iocMatches (setup : Setup) (scan : Scan) (s : Store) (finding : Finding) : List Finding :=
  (s.iocs.filter fun ioc =>
    activeAt scan.now ioc.expiresAt && ioc.matches setup finding.rawLine).map
    (iocFinding finding.source finding.rawLine)

/-- What is offered for a finding of a line: nothing if a rule drops it, or else the finding
and its matches. -/
def reported (setup : Setup) (scan : Scan) (s : Store) (finding : Finding) : List Finding :=
  if s.suppressed setup scan finding then [] else finding :: s.iocMatches setup scan finding

end Store

/-! ### Baselines -/

/-- `some true` if another hash was recorded before, and `none` if the database refuses a value. -/
def upsertIfChanged (setup : Setup) (files : List FileHash) (host : HostId)
    (path hash : Text) : List FileHash × Option Bool :=
  let existing := files.find? fun file => file.host = host && setup.sameText file.path path
  match setup.stored .path path, setup.stored .hash hash with
  | some path, some stored =>
    let isRow := fun (file : FileHash) => file.host = host && setup.sameText file.path path
    (if files.any isRow then
        files.map fun file => if isRow file then { file with hash := stored } else file
      else files ++ [⟨host, path, stored⟩],
      some (existing.any fun file => file.hash ≠ hash))
  | _, _ => (files, none)

/-- The keys are entered, up to the first that the database refuses. -/
def enterKeys (setup : Setup) (inventory : Inventory) (host : HostId) :
    List SeenKey → List Text → List SeenKey × Bool
  | table, [] => (table, true)
  | table, key :: keys =>
    match setup.stored (.key inventory) key with
    | none => (table, false)
    | some key =>
      let present := table.any fun row => row.host = host && setup.sameText row.key key
      enterKeys setup inventory host (if present then table else table ++ [⟨host, key⟩]) keys

def knownKeys (table : List SeenKey) (host : HostId) : List Text :=
  (table.filter (·.host = host)).map (·.key)

/-- The keys that are reported and not known. A host of which nothing is known has none. -/
def newKeys (known current : List Text) : List Text :=
  if known = [] then [] else current.filter fun key => !known.contains key

/-- The keys a host reports take the place of those known, and the new ones are returned. -/
def recordSeen (setup : Setup) (inventory : Inventory) (table : List SeenKey) (host : HostId)
    (current : List Text) : List SeenKey × Option (List Text) :=
  let known := knownKeys table host
  match enterKeys setup inventory host table current with
  | (table, false) => (table, none)
  | (table, true) =>
    let remove := fun (table : List SeenKey) key =>
      table.filter fun row => !(row.host = host && setup.sameText row.key key)
    ((known.filter fun key => !current.contains key).foldl remove table,
      some (newKeys known current))

/-- An offset of an event log moves forward only. `none` if the database refuses the
channel. -/
def recordOffset (setup : Setup) (offsets : List LogOffset) (host : HostId)
    (channel : Text) (recordId : ℕ) : Option (List LogOffset) :=
  (setup.stored .channel channel).map fun channel =>
    let isRow := fun (row : LogOffset) => row.host = host && setup.sameText row.channel channel
    if offsets.any isRow then
      offsets.map fun row =>
        if isRow row then { row with recordId := max row.recordId recordId } else row
    else offsets ++ [⟨host, channel, recordId⟩]

/-! ### The ingestion -/

structure Progress where
  store : Store
  current : Inventory → List Text
  informational : List Text
  persisted : ℕ
  aborted : Bool

namespace Progress

def start (s : Store) : Progress where
  store := s
  current := fun _ => []
  informational := []
  persisted := 0
  aborted := false

def offerAll (setup : Setup) (scan : Scan) (p : Progress) (findings : List Finding) : Progress :=
  findings.foldl (fun p finding =>
    let (s, inserted) := p.store.offer setup scan finding
    { p with store := s, persisted := if inserted then p.persisted + 1 else p.persisted }) p

def takeLine (setup : Setup) (scan : Scan) (p : Progress) (line : Line) : Progress :=
  if p.aborted then p
  else
    match line with
    | .seen inventory key =>
      { p with current := update p.current inventory (p.current inventory ++ [key]) }
    | .offset channel recordId =>
      match recordOffset setup p.store.offsets scan.host channel recordId with
      | none => { p with aborted := true }
      | some offsets => { p with store := { p.store with offsets := offsets } }
    | .fileHash path hash =>
      match upsertIfChanged setup p.store.fileHashes scan.host path hash with
      | (files, none) => { p with store := { p.store with fileHashes := files }, aborted := true }
      | (files, some changed) =>
        let p := { p with store := { p.store with fileHashes := files } }
        if changed then
          p.offerAll setup scan (p.store.reported setup scan (fileFinding setup path hash))
        else p
    | .info message => { p with informational := p.informational ++ [message] }
    | .classified severity label source rawLine =>
      p.offerAll setup scan
        (p.store.reported setup scan (classifiedFinding setup severity label source rawLine))
    | .other => p

/-- The ports or modules that the lines listed are compared with the baseline. -/
def takeSeen (setup : Setup) (scan : Scan) (p : Progress) (inventory : Inventory) : Progress :=
  if p.aborted || p.current inventory = [] then p
  else
    let (table, reported) :=
      recordSeen setup inventory (p.store.seen inventory) scan.host (p.current inventory)
    let p := { p with
      store := { p.store with seen := update p.store.seen inventory table } }
    match reported with
    | none => { p with aborted := true }
    | some new =>
      p.offerAll setup scan
        ((new.map fun key => seenFinding setup key inventory).filter fun finding =>
          !p.store.suppressed setup scan finding)

def afterLines (setup : Setup) (scan : Scan) (s : Store) : Progress :=
  ((lines scan.stdout).map readLine).foldl (takeLine setup scan) (start s)

end Progress

def persistScanOutput (setup : Setup) (scan : Scan) (s : Store) : Progress :=
  ((Progress.afterLines setup scan s).takeSeen setup scan .ports).takeSeen setup scan .modules

/-! ### What an ingestion offers -/

namespace Progress

def findings (setup : Setup) (scan : Scan) (p : Progress) (line : Line) : List Finding :=
  if p.aborted then []
  else
    match line with
    | .fileHash path hash =>
      if (upsertIfChanged setup p.store.fileHashes scan.host path hash).2 = some true then
        p.store.reported setup scan (fileFinding setup path hash)
      else []
    | .classified severity label source rawLine =>
      p.store.reported setup scan (classifiedFinding setup severity label source rawLine)
    | _ => []

def drifts (setup : Setup) (scan : Scan) (p : Progress) (line : Line) : List Finding :=
  if p.aborted then []
  else
    match line with
    | .fileHash path hash =>
      if (upsertIfChanged setup p.store.fileHashes scan.host path hash).2 = some true then
        [fileFinding setup path hash]
      else []
    | _ => []

/-- What is collected along the lines, each in the state that the lines before it lead to. -/
def along (setup : Setup) (scan : Scan) (collect : Progress → Line → List Finding) :
    Progress → List Line → List Finding
  | _, [] => []
  | p, line :: rest => collect p line ++ along setup scan collect (p.takeLine setup scan line) rest

def seenDrifts (setup : Setup) (scan : Scan) (p : Progress) (inventory : Inventory) :
    List Finding :=
  if p.aborted || p.current inventory = [] then []
  else
    let reported :=
      (recordSeen setup inventory (p.store.seen inventory) scan.host (p.current inventory)).2
    (reported.getD []).map fun key => seenFinding setup key inventory

def seenFindings (setup : Setup) (scan : Scan) (p : Progress) (inventory : Inventory) :
    List Finding :=
  (p.seenDrifts setup scan inventory).filter fun finding => !p.store.suppressed setup scan finding

end Progress

/-- The findings that an ingestion offers to the event table, in order. -/
def scanFindings (setup : Setup) (scan : Scan) (s : Store) : List Finding :=
  let p := Progress.afterLines setup scan s
  Progress.along setup scan (Progress.findings setup scan) (.start s)
      ((lines scan.stdout).map readLine) ++
    (p.seenFindings setup scan .ports ++
      (p.takeSeen setup scan .ports).seenFindings setup scan .modules)

/-- The drifts that the baselines report in an ingestion, in order. -/
def scanDrifts (setup : Setup) (scan : Scan) (s : Store) : List Finding :=
  let p := Progress.afterLines setup scan s
  Progress.along setup scan (Progress.drifts setup scan) (.start s)
      ((lines scan.stdout).map readLine) ++
    (p.seenDrifts setup scan .ports ++
      (p.takeSeen setup scan .ports).seenDrifts setup scan .modules)

variable (setup : Setup) (scan : Scan)

namespace Progress

/-- The findings were offered to the event table. The messages sent since are exports. -/
structure Offered (s s' : Store) (findings : List Finding) : Prop where
  events : s'.events = s.events.insertAll (findings.map (setup.event scan.now scan.host))
  config : s'.config = s.config
  exported : s.Exported s'

variable {setup scan} in
theorem Offered.trans {s₁ s₂ s₃ : Store} {before after : List Finding}
    (h : Offered setup scan s₁ s₂ before) (h' : Offered setup scan s₂ s₃ after) :
    Offered setup scan s₁ s₃ (before ++ after) where
  events := by rw [h'.events, h.events, map_append, EventTable.insertAll_append]
  config := h'.config.trans h.config
  exported := h.exported.trans h'.exported

variable (p : Progress)

/-- It is enough that the store has the events, rules and messages of `s` before the offers. -/
theorem offered_offerAll {s : Store} (offered : List Finding)
    (hevents : p.store.events = s.events) (hconfig : p.store.config = s.config)
    (hdispatched : p.store.dispatched = s.dispatched) :
    Offered setup scan s (p.offerAll setup scan offered).store offered := by
  induction offered generalizing p s with
  | nil => exact ⟨hevents, hconfig, .of_eq hdispatched⟩
  | cons finding _ ih =>
    have hfirst : Offered setup scan s (p.store.offer setup scan finding).1 [finding] :=
      ⟨hevents ▸ rfl, hconfig, (Store.Exported.of_eq hdispatched).trans
        (Store.exported_offer setup scan p.store finding)⟩
    exact hfirst.trans (ih _ rfl rfl rfl)

theorem offered_takeLine (line : Line) :
    Offered setup scan p.store (p.takeLine setup scan line).store (p.findings setup scan line) := by
  unfold takeLine findings
  split_ifs
  · exact ⟨rfl, rfl, .refl _⟩
  · cases line with
    | offset channel recordId =>
      dsimp only
      cases recordOffset setup p.store.offsets scan.host channel recordId
      all_goals exact ⟨rfl, rfl, .of_eq rfl⟩
    | fileHash path hash =>
      dsimp only
      rcases upsertIfChanged setup p.store.fileHashes scan.host path hash with
        ⟨files, _ | _ | _⟩
      · exact ⟨rfl, rfl, .of_eq rfl⟩
      · exact ⟨rfl, rfl, .of_eq rfl⟩
      · exact offered_offerAll setup scan { p with store.fileHashes := files } _ rfl rfl rfl
    | classified => exact offered_offerAll setup scan p _ rfl rfl rfl
    | seen | info | other => exact ⟨rfl, rfl, .of_eq rfl⟩

theorem offered_takeSeen (inventory : Inventory) :
    Offered setup scan p.store (p.takeSeen setup scan inventory).store
      (p.seenFindings setup scan inventory) := by
  unfold takeSeen seenFindings seenDrifts
  split_ifs
  · exact ⟨rfl, rfl, .refl _⟩
  · rcases recordSeen setup inventory (p.store.seen inventory) scan.host (p.current inventory) with
      ⟨table, _ | _⟩
    · exact ⟨rfl, rfl, .of_eq rfl⟩
    · exact offered_offerAll setup scan
        { p with store.seen := update p.store.seen inventory table } _ rfl rfl rfl

theorem offered_takeLines (rest : List Line) :
    Offered setup scan p.store (rest.foldl (takeLine setup scan) p).store
      (along setup scan (findings setup scan) p rest) := by
  induction rest generalizing p with
  | nil => exact ⟨rfl, rfl, .refl _⟩
  | cons line _ ih => exact (offered_takeLine setup scan p line).trans (ih _)

end Progress

open Progress

theorem offered_persistScanOutput (s : Store) :
    Offered setup scan s (persistScanOutput setup scan s).store (scanFindings setup scan s) :=
  (offered_takeLines setup scan (.start s) _).trans
    ((offered_takeSeen setup scan _ _).trans (offered_takeSeen setup scan _ _))

theorem rows_persistScanOutput (s : Store) :
    (persistScanOutput setup scan s).store.events.rows = addAll Event.lineHash s.events.rows
        ((scanFindings setup scan s).map (setup.event scan.now scan.host)) := by
  rw [← EventTable.rows_insertAll, (offered_persistScanOutput setup scan s).events]

/-! ### Drift -/

variable {s : Store}

theorem Store.mem_reported_iff {finding reported : Finding}
    (h : ∀ configured, reported.origin ≠ .ioc configured) :
    reported ∈ s.reported setup scan finding ↔
      reported = finding ∧ s.suppressed setup scan finding = false := by
  rw [Store.reported]
  split_ifs with hsuppressed
  · simp [hsuppressed]
  · have hnot : reported ∉ s.iocMatches setup scan finding := by
      intro hmem
      obtain ⟨ioc, -, rfl⟩ := mem_map.1 hmem
      exact h ioc.severity rfl
    simp [hsuppressed, hnot]

namespace Progress

theorem mem_findings_drift (p : Progress) (line : Line) (finding : Finding) :
    finding ∈ p.findings setup scan line ∧ finding.origin = .drift ↔
      finding ∈ p.drifts setup scan line ∧ p.store.suppressed setup scan finding = false := by
  have hreported : ∀ other, finding ∈ p.store.reported setup scan other ∧ finding.origin = .drift ↔
      (finding = other ∧ p.store.suppressed setup scan other = false) ∧
        finding.origin = .drift := by
    intro other
    refine and_congr_left fun hdrift => Store.mem_reported_iff setup scan fun configured => ?_
    rw [hdrift]
    nofun
  unfold findings drifts
  split_ifs
  · simp
  · cases line with
    | fileHash =>
      dsimp only
      split_ifs
      · rw [hreported, mem_singleton]
        constructor
        · rintro ⟨⟨rfl, hsuppressed⟩, -⟩
          exact ⟨rfl, hsuppressed⟩
        · rintro ⟨rfl, hsuppressed⟩
          exact ⟨⟨rfl, hsuppressed⟩, rfl⟩
      · simp
    | classified =>
      rw [hreported]
      constructor
      · rintro ⟨⟨rfl, -⟩, hdrift⟩
        cases hdrift
      · rintro ⟨hmem, -⟩
        cases hmem
    | seen | offset | info | other => simp

theorem mem_along_congr {collect collect' : Progress → Line → List Finding} {finding : Finding}
    {P Q : Prop} {config : List SuppressionRule × List Ioc × Settings}
    (h : ∀ (p : Progress) line, p.store.config = config →
      (finding ∈ collect p line ∧ P ↔ finding ∈ collect' p line ∧ Q))
    {p : Progress} (hp : p.store.config = config) (rest : List Line) :
    finding ∈ along setup scan collect p rest ∧ P ↔
      finding ∈ along setup scan collect' p rest ∧ Q := by
  induction rest generalizing p with
  | nil => simp [along]
  | cons line _ ih =>
    rw [along, along, mem_append, mem_append, or_and_right, or_and_right, h p line hp,
      ih ((offered_takeLine setup scan p line).config.trans hp)]

private theorem origin_of_mem_seenDrifts {p : Progress} {inventory : Inventory} {finding : Finding}
    (h : finding ∈ p.seenDrifts setup scan inventory) : finding.origin = .drift := by
  unfold seenDrifts at h
  split_ifs at h
  · cases h
  · obtain ⟨_, -, rfl⟩ := mem_map.1 h
    cases inventory
    all_goals rfl

private theorem mem_seenFindings_drift (p : Progress) (inventory : Inventory) (finding : Finding) :
    finding ∈ p.seenFindings setup scan inventory ∧ finding.origin = .drift ↔
      finding ∈ p.seenDrifts setup scan inventory ∧
        p.store.suppressed setup scan finding = false := by
  rw [seenFindings, mem_filter, Bool.not_eq_true']
  exact ⟨fun h => h.1, fun h => ⟨h, origin_of_mem_seenDrifts setup scan h.1⟩⟩

end Progress

theorem mem_scanFindings_drift (s : Store) (finding : Finding) :
    finding ∈ scanFindings setup scan s ∧ finding.origin = .drift ↔
      finding ∈ scanDrifts setup scan s ∧ s.suppressed setup scan finding = false := by
  have hafter : (afterLines setup scan s).store.config = s.config :=
    (offered_takeLines setup scan (.start s) _).config
  have hports : ((afterLines setup scan s).takeSeen setup scan .ports).store.config =
      s.config := (offered_takeSeen setup scan _ _).config.trans hafter
  have hline : ∀ (p : Progress) line, p.store.config = s.config →
      (finding ∈ p.findings setup scan line ∧ finding.origin = .drift ↔
        finding ∈ p.drifts setup scan line ∧ s.suppressed setup scan finding = false) := by
    intro p line hp
    rw [mem_findings_drift, Store.suppressed_congr setup scan hp]
  have halong := mem_along_congr setup scan hline (p := .start s) rfl
    ((lines scan.stdout).map readLine)
  simp only [scanFindings, scanDrifts, mem_append, or_and_right, halong,
    mem_seenFindings_drift, Store.suppressed_congr setup scan hafter,
    Store.suppressed_congr setup scan hports]

/-! ### Sources and severities -/

def Finding.Shaped (finding : Finding) : Prop :=
  match finding.origin with
  | .classified => True
  | .drift => finding.severity = .high ∧ finding.source ∈ [fileSource, networkSource, moduleSource]
  | .ioc configured => finding.severity = configured ∧ finding.source = iocSource
  | .correlation => False

theorem shaped_fileFinding (path hash : Text) : (fileFinding setup path hash).Shaped :=
  ⟨rfl, mem_cons_self⟩

theorem shaped_classifiedFinding (severity : Severity) (label source rawLine : Text) :
    (classifiedFinding setup severity label source rawLine).Shaped := trivial

theorem shaped_seenFinding (key : Text) (inventory : Inventory) :
    (seenFinding setup key inventory).Shaped := by
  cases inventory with
  | ports => exact ⟨rfl, mem_cons_of_mem _ mem_cons_self⟩
  | modules => exact ⟨rfl, mem_cons_of_mem _ (mem_cons_of_mem _ mem_cons_self)⟩

theorem Store.shaped_of_mem_reported {finding reported : Finding}
    (hfinding : finding.Shaped) (h : reported ∈ s.reported setup scan finding) :
    reported.Shaped := by
  unfold Store.reported at h
  split_ifs at h
  · cases h
  · rcases mem_cons.1 h with rfl | h
    · exact hfinding
    · obtain ⟨_, -, rfl⟩ := mem_map.1 h
      exact ⟨rfl, rfl⟩

namespace Progress

variable {p : Progress} {finding : Finding}

private theorem shaped_of_mem_findings {line : Line}
    (h : finding ∈ p.findings setup scan line) : finding.Shaped := by
  unfold findings at h
  split_ifs at h
  · cases h
  · cases line with
    | fileHash path hash =>
      dsimp only at h
      split_ifs at h
      · exact Store.shaped_of_mem_reported setup scan (shaped_fileFinding setup path hash) h
      · cases h
    | classified severity label source rawLine =>
      exact Store.shaped_of_mem_reported setup scan
        (shaped_classifiedFinding setup severity label source rawLine) h
    | _ => cases h

private theorem shaped_of_mem_along {rest : List Line}
    (h : finding ∈ along setup scan (findings setup scan) p rest) : finding.Shaped := by
  induction rest generalizing p with
  | nil => cases h
  | cons _ _ ih =>
    rcases mem_append.1 h with h | h
    · exact shaped_of_mem_findings setup scan h
    · exact ih h

private theorem shaped_of_mem_seenFindings {inventory : Inventory}
    (h : finding ∈ p.seenFindings setup scan inventory) : finding.Shaped := by
  have hdrift := (mem_filter.1 h).1
  unfold seenDrifts at hdrift
  split_ifs at hdrift
  · cases hdrift
  · obtain ⟨key, -, rfl⟩ := mem_map.1 hdrift
    exact shaped_seenFinding setup key inventory

end Progress

theorem shaped_of_mem_scanFindings {finding : Finding}
    (h : finding ∈ scanFindings setup scan s) : finding.Shaped := by
  rcases mem_append.1 h with h | h
  · exact shaped_of_mem_along setup scan h
  · exact (mem_append.1 h).elim (shaped_of_mem_seenFindings setup scan)
      (shaped_of_mem_seenFindings setup scan)

end Abyssal.Thanatos