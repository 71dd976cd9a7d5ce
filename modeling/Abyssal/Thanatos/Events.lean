import Abyssal.Table.Keyed
import Abyssal.Text.Basic

/-!
# The security event store

An event is a log line that an agent classified, a drift from a baseline, a match with an indicator
of compromise, or a finding of the correlation checks, told from the others by its source. A row
goes in unless the table has one with the same hash of host, source and text. Time is counted in
microseconds; the database's `NOW()` has whole seconds.
-/

namespace Abyssal.Thanatos

open Text Table List

abbrev HostId := ℕ

inductive Severity where
  | low
  | medium
  | high
  | critical
  deriving DecidableEq

namespace Severity

def asKey : Severity → Text
  | low => "low"
  | medium => "medium"
  | high => "high"
  | critical => "critical"

def fromKey (key : Text) : Option Severity :=
  [low, medium, high, critical].find? fun severity => severity.asKey = key

end Severity

/-- What a scan lists in full each time: the listening ports and the kernel modules. -/
inductive Inventory where
  | ports
  | modules
  deriving DecidableEq

inductive Column where
  | path
  | hash
  | channel
  | key (inventory : Inventory)

def Column.width : Column → ℕ
  | path => 255
  | hash => 64
  | channel => 128
  | key .ports => 32
  | key .modules => 64

/-- The sources under which the control plane itself records events. -/
def correlationSource : Text := "correlation"

def fileSource : Text := "fim"

def networkSource : Text := "network"

def moduleSource : Text := "kernel_module"

def iocSource : Text := "ioc"

structure Setup where
  /-- The hash of host, source and text by which events are told apart. -/
  lineHash : HostId → Text → Text → Text
  /-- Events of different hosts have different hashes. -/
  host_eq_of_lineHash : ∀ {host host' : HostId} {source source' text text' : Text},
    lineHash host source text = lineHash host' source' text' → host = host'
  techniqueFor : Text → Text
  /-- Letters and digits in Unicode. -/
  isAlphanumeric : Char → Bool
  /-- Whether the database takes two texts for the same. -/
  sameText : Text → Text → Bool
  sameText_correlation : sameText correlationSource correlationSource = true
  sameText_own : ∀ source ∈ [fileSource, networkSource, moduleSource, iocSource],
    sameText source correlationSource = false
  /-- What a column keeps of a value, if it takes the value. -/
  stored : Column → Text → Option Text
  /-- The address that a token is, as it is displayed. -/
  parseAddress : Text → Option Text
  /-- The order in which the entries of a hash table are traversed. -/
  arrange : {α : Type} → List α → List α
  arrange_perm : ∀ {α : Type} (entries : List α), (arrange entries).Perm entries

/-- The part of the control plane that offered an event. -/
inductive Origin where
  /-- A line that the agent classified. -/
  | classified
  /-- A drift from a baseline. -/
  | drift
  /-- A match with an indicator that is configured with a severity. -/
  | ioc (configured : Severity)
  /-- A correlation check. -/
  | correlation
  deriving DecidableEq

structure Finding where
  source : Text
  severity : Severity
  label : Text
  technique : Text
  rawLine : Text
  origin : Origin
  deriving DecidableEq

structure Event where
  host : HostId
  lineHash : Text
  source : Text
  severity : Severity
  label : Text
  technique : Text
  rawLine : Text
  occurredAt : ℕ
  origin : Origin
  deriving DecidableEq

variable (setup : Setup) (now : ℕ)

/-- A value that is too long for its column is cut, as `INSERT IGNORE` does; the hash is that of the
values as given. -/
def Setup.event (host : HostId) (finding : Finding) : Event where
  host := host
  lineHash := setup.lineHash host finding.source finding.rawLine
  source := finding.source.take 64
  severity := finding.severity
  label := finding.label.take 150
  technique := finding.technique.take 16
  rawLine := takeBytes 65535 finding.rawLine
  occurredAt := now
  origin := finding.origin

structure EventTable where
  rows : List Event
  nodup_lineHash : (rows.map Event.lineHash).Nodup

/-- `NOW()`: the time in whole seconds. -/
def wholeSeconds : ℕ := now / 1000000 * 1000000

namespace Event

def since (event : Event) (now minutes : ℕ) : Bool :=
  wholeSeconds now < event.occurredAt + minutes * 60000000

def isHigh (event : Event) : Bool := event.severity = .high || event.severity = .critical

/-- Whether the database finds the event when it looks for the source `correlation`. -/
def isCorrelation (event : Event) : Bool :=
  setup.sameText event.source correlationSource

end Event

namespace EventTable

variable (table : EventTable)

def hashes : List Text := table.rows.map Event.lineHash

def insertIfNew (event : Event) : EventTable × Bool :=
  ({ rows := addNew Event.lineHash table.rows event
     nodup_lineHash := nodup_addNew table.nodup_lineHash event },
    event.lineHash ∉ table.hashes)

theorem insertIfNew_of_mem {table : EventTable} {event : Event}
    (h : event.lineHash ∈ table.hashes) : table.insertIfNew event = (table, false) := by
  have hrows : addNew Event.lineHash table.rows event = table.rows := addNew_of_mem h
  cases table
  simp [insertIfNew, hrows, h]

def insertAll (events : List Event) : EventTable :=
  events.foldl (fun table event => (table.insertIfNew event).1) table

theorem rows_insertAll (events : List Event) :
    (table.insertAll events).rows = addAll Event.lineHash table.rows events := by
  induction events generalizing table with
  | nil => rfl
  | cons event _ ih => exact ih (table.insertIfNew event).1

theorem insertAll_append (events events' : List Event) :
    table.insertAll (events ++ events') = (table.insertAll events).insertAll events' :=
  foldl_append

/-- The number of high or critical events of a host, its correlation findings left out. -/
def countHighSeveritySince (host : HostId) (minutes : ℕ) : ℕ :=
  table.rows.countP fun event =>
    event.host = host && !event.isCorrelation setup && event.isHigh && event.since now minutes

def hasRecentCorrelationEvent (host : HostId) (minutes : ℕ) : Bool :=
  table.rows.any fun event =>
    event.host = host && event.isCorrelation setup && event.since now minutes

/-- Host and text of the high or critical events of all hosts, correlation findings left
out. -/
def listRecentHighSeverityAllHosts (now minutes : ℕ) : List (HostId × Text) :=
  (table.rows.filter fun event =>
    !event.isCorrelation setup && event.isHigh && event.since now minutes).map fun event =>
      (event.host, event.rawLine)

def pruneOlderThan (now days : ℕ) : EventTable where
  rows := table.rows.filter fun event =>
    wholeSeconds now ≤ event.occurredAt + days * 86400000000
  nodup_lineHash := table.nodup_lineHash.sublist (filter_sublist.map _)

end EventTable

/-- The runs of letters, digits, dots, hyphens and underscores, with empty ones between
neighbouring separators. -/
def Setup.tokens (text : Text) : List Text :=
  text.splitOnP fun c => !(setup.isAlphanumeric c || c = '.' || c = '-' || c = '_')

def Setup.containsToken (haystack needle : Text) : Bool :=
  needle ≠ [] && (setup.tokens haystack).any (· = needle)

/-- A suppression rule; a criterion that is not set matches everything. -/
structure SuppressionRule where
  host : Option HostId
  source : Option Text
  label : Option Text
  technique : Option Text
  textContains : Option Text
  expiresAt : Option ℕ

def SuppressionRule.matches (rule : SuppressionRule) (host : HostId) (finding : Finding) : Bool :=
  rule.host.all (· = host) && rule.source.all (· = finding.source) &&
    rule.label.all (· = finding.label) && rule.technique.all (· = finding.technique) &&
    rule.textContains.all (setup.containsToken finding.rawLine)

inductive IocType where
  | ip
  | domain
  | hash

def IocType.asKey : IocType → Text
  | ip => "ip"
  | domain => "domain"
  | hash => "hash"

structure Ioc where
  iocType : IocType
  value : Text
  severity : Severity
  label : Option Text
  expiresAt : Option ℕ

def Ioc.matches (ioc : Ioc) (text : Text) : Bool :=
  ((setup.tokens text).filter (· ≠ [])).any fun token =>
    match ioc.iocType with
    | .ip => token = ioc.value
    | .hash => toAsciiLowercase token = toAsciiLowercase ioc.value
    | .domain =>
      toAsciiLowercase token = ioc.value || ('.' :: ioc.value).isSuffixOf (toAsciiLowercase token)

/-- Whether a rule or an indicator with this expiry is active. -/
def activeAt (expiresAt : Option ℕ) : Bool := expiresAt.all (wholeSeconds now < ·)

structure FileHash where
  host : HostId
  path : Text
  hash : Text

/-- A port or kernel module that a host was seen with. -/
structure SeenKey where
  host : HostId
  key : Text

/-- How far the event log of a channel has been read on a host. -/
structure LogOffset where
  host : HostId
  channel : Text
  recordId : ℕ

/-- The settings of the correlation checks. The settings page takes no window of length
zero. -/
structure Settings where
  threshold : ℕ
  windowMinutes : ℕ
  windowMinutes_pos : 0 < windowMinutes
  crossHostThreshold : ℕ

/-- How a notification is ranked by those who receive it. -/
inductive Urgency where
  | info
  | warning
  | critical
  deriving DecidableEq

def notificationSeverity : Severity → Urgency
  | .low | .medium => .info
  | .high => .warning
  | .critical => .critical

/-- A message to the notification providers. One without recipients is only exported. -/
structure Notification where
  about : HostId
  subject : Text
  body : Text
  severity : Urgency
  recipients : List Text

structure Store where
  events : EventTable
  fileHashes : List FileHash
  seen : Inventory → List SeenKey
  offsets : List LogOffset
  rules : List SuppressionRule
  iocs : List Ioc
  settings : Settings
  dispatched : List Notification

structure Scan where
  now : ℕ
  host : HostId
  hostName : Text
  stdout : Text
  recipients : List Text

def exportEvent (scan : Scan) (finding : Finding) : Notification where
  about := scan.host
  subject := "[Thanatos] " ++ scan.hostName ++ ": " ++ finding.label
  body := "source=" ++ finding.source ++ " severity=" ++ finding.severity.asKey ++
    ' ' :: finding.rawLine
  severity := notificationSeverity finding.severity
  recipients := []

namespace Store

variable (setup : Setup) (scan : Scan) (s : Store) (finding : Finding)

def offer : Store × Bool :=
  let (events, inserted) := s.events.insertIfNew (setup.event scan.now scan.host finding)
  ({ s with
      events := events
      dispatched := if inserted then exportEvent scan finding :: s.dispatched else s.dispatched },
    inserted)

def suppressed : Bool :=
  (s.rules.filter fun rule => activeAt scan.now rule.expiresAt).any fun rule =>
    rule.matches setup scan.host finding

def config (s : Store) : List SuppressionRule × List Ioc × Settings := (s.rules, s.iocs, s.settings)

theorem suppressed_congr (setup : Setup) (scan : Scan) {s s' : Store} (h : s.config = s'.config) :
    s.suppressed setup scan = s'.suppressed setup scan := by
  have hrules : s.rules = s'.rules := congrArg Prod.fst h
  funext finding
  rw [suppressed, suppressed, hrules]

/-- Between two states, messages were exported, and none had a recipient. -/
def Exported (s s' : Store) : Prop :=
  ∃ exports : List Notification, s'.dispatched = exports ++ s.dispatched ∧
    ∀ message ∈ exports, message.recipients = []

theorem Exported.of_eq {s s' : Store} (h : s'.dispatched = s.dispatched) : s.Exported s' :=
  ⟨[], h, nofun⟩

theorem Exported.refl (s : Store) : s.Exported s := .of_eq rfl

theorem Exported.trans {s s' s'' : Store} (h : s.Exported s') (h' : s'.Exported s'') :
    s.Exported s'' := by
  obtain ⟨exports, heq, hnone⟩ := h
  obtain ⟨exports', heq', hnone'⟩ := h'
  refine ⟨exports' ++ exports, by rw [heq', heq, append_assoc], fun message hmem => ?_⟩
  exact (mem_append.1 hmem).elim (hnone' message) (hnone message)

theorem exported_offer : s.Exported (s.offer setup scan finding).1 := by
  cases hnew : (s.events.insertIfNew (setup.event scan.now scan.host finding)).2 with
  | false => exact .of_eq (by simp [offer, hnew])
  | true =>
    refine ⟨[exportEvent scan finding], by simp [offer, hnew], fun message hmem => ?_⟩
    rw [mem_singleton.1 hmem]
    rfl

end Store

/-! ### A plain environment -/

/-- Host, source and text in one text, the host as a number of marks. -/
def plainHash (host : HostId) (source text : Text) : Text :=
  replicate host '#' ++ '|' :: (source ++ '|' :: text)

private theorem host_eq_of_plainHash {host host' : HostId} {source source' text text' : Text}
    (h : plainHash host source text = plainHash host' source' text') : host = host' := by
  induction host generalizing host' with
  | zero =>
    cases host' with
    | zero => rfl
    | succ => exact absurd (cons.inj h).1 (by decide)
  | succ _ ih =>
    cases host' with
    | zero => exact absurd (cons.inj h).1 (by decide)
    | succ => rw [ih (cons.inj h).2]

/-- Case does not matter to the database, columns refuse what is too long, and addresses are digits
and dots. -/
def plainSetup : Setup where
  lineHash := plainHash
  host_eq_of_lineHash := host_eq_of_plainHash
  techniqueFor _ := []
  isAlphanumeric := isAsciiAlphanumeric
  sameText a b := toAsciiLowercase a = toAsciiLowercase b
  sameText_correlation := by decide
  sameText_own := by decide
  stored column value := if value.length ≤ column.width then some value else none
  parseAddress token := if token.all fun c => isAsciiDigit c || c = '.' then some token else none
  arrange entries := entries
  arrange_perm _ := .rfl

def emptyStore : Store where
  events := ⟨[], nodup_nil⟩
  fileHashes := []
  seen _ := []
  offsets := []
  rules := []
  iocs := []
  settings := ⟨2, 5, Nat.zero_lt_succ _, 3⟩
  dispatched := []

def scanOfWeb (seconds : ℕ) (stdout : Text) : Scan where
  now := seconds * 1000000
  host := 1
  hostName := "web"
  stdout := stdout
  recipients := ["ops"]

end Abyssal.Thanatos
