import Abyssal.Machine.Guarded
import Abyssal.Thanatos.Scan

/-!
# The alerts of a host in the cache and in Thanatos

An alert goes into the cache unless a row has its hash, and one that went in and is serious enough
is forwarded to Thanatos, whose table has a hash of its own. A query that fails is passed over, and
the position in the host's log is stored in any case. A run is a sequence of pulls of one host.
Which alerts were pulled, were due and lie before the position is recorded beside the tables.

## Main results

* `exactlyOnce_of_reached`: every alert is stored once.
-/

namespace Abyssal.Scourge

open Text Table Thanatos List

structure Alert where
  timestamp : Text
  severityKey : Text
  sid : Text
  signature : Text
  category : Text
  proto : Text
  srcIp : Text
  srcPort : Text
  dstIp : Text
  dstPort : Text
  deriving DecidableEq

/-- `parse_alert_line`. -/
def parseAlertLine (line : Text) : Option Alert :=
  match splitN '\t' 11 line with
  | [kind, timestamp, severity, sid, signature, category, proto, srcIp, srcPort, dstIp, dstPort] =>
    if kind = "alert" then
      some ⟨timestamp, severity, sid, signature, category, proto, srcIp, srcPort, dstIp, dstPort⟩
    else none
  | _ => none

def parseU32 (s : Text) : Option ℕ := (parseU64 s).filter (· < 4294967296)

def orDash (s : Text) : Text := if s = [] then ['-'] else s

def numberOrDash (s : Text) : Text := ((parseU32 s).map ofNat).getD ['-']

def sevRank : Severity → ℕ
  | .low => 0
  | .medium => 1
  | .high => 2
  | .critical => 3

namespace Alert

variable (a : Alert)

def severity : Severity := (Severity.fromKey a.severityKey).getD .low

def hashed : Text :=
  ['\t'].intercalate [a.timestamp, a.severity.asKey, a.sid, a.signature, a.proto, a.srcIp, a.dstIp,
    a.dstPort]

def label : Text := a.signature.take 180

def raw : Text :=
  a.label ++ " sid=" ++ numberOrDash a.sid ++ " proto=" ++ orDash a.proto ++
    " src=" ++ orDash a.srcIp ++ ":" ++ numberOrDash a.srcPort ++ " dst=" ++
    orDash a.dstIp ++ ":" ++ numberOrDash a.dstPort ++ " IpAddress=" ++ orDash a.srcIp

end Alert

inductive Item
  | cursor (inode offset : ℕ)
  | alert (a : Alert)
  | other

def parseItem (line : Text) : Item :=
  match "cursor\t".toList.isPrefixOf? line with
  | some rest =>
    match splitOnce '\t' rest with
    | none => .other
    | some (inode, offset) =>
      match parseU64 (trim inode), parseU64 (trim offset) with
      | some inode, some offset => .cursor inode offset
      | _, _ => .other
  | none =>
    match parseAlertLine line with
    | some a => .alert a
    | none => .other

def Item.alert? : Item → Option Alert
  | .alert a => some a
  | _ => none

def Item.isCursor : Item → Bool
  | .cursor _ _ => true
  | _ => false

/-- The host, and the hashes of the two tables. -/
structure Keys where
  host : HostId
  hash : Text → Text
  setup : Setup

variable (K : Keys) (a : Alert)

def Keys.row : Text := K.hash a.hashed

def Keys.finding : Finding :=
  classifiedFinding K.setup a.severity a.label "scourge" a.raw

def Keys.event : Text :=
  K.setup.lineHash K.host (K.finding a).source (K.finding a).rawLine

/-- The lines, each with whether its query works, the settings, the rules, and after how many lines
Thanatos stops. -/
structure Pull where
  lines : List (Text × Bool)
  minForward : Severity
  thanatosOn : Bool
  rules : List SuppressionRule
  stops : Option ℕ

namespace Pull

variable (p : Pull)

def alerts : List Alert := p.lines.filterMap fun l => (parseItem l.1).alert?

def forwards : Bool := p.thanatosOn && sevRank p.minForward ≤ sevRank a.severity

def suppresses : Bool :=
  p.rules.any (·.matches K.setup K.host (K.finding a))

def moves : Bool := p.lines.any fun l => l.2 && (parseItem l.1).isCursor

end Pull

/-- The rows of the cache and of Thanatos; and which alerts were pulled, were due, and lie before
the position. -/
structure Store where
  alerts : List Alert
  events : List Alert
  pulled : List Alert
  due : List Alert
  passed : List Alert

/-- An alert is pulled; it is due if that is new and it is to be forwarded and not suppressed. -/
def Store.pull (p : Pull) (s : Store) (a : Alert) : Store :=
  { s with
    pulled := a :: s.pulled
    due := if !s.pulled.any (· = a) && p.forwards a && !p.suppresses K a then a :: s.due
      else s.due }

/-- One line of the output. Alerts to be forwarded are collected. -/
def takeLine (p : Pull) (x : Store × List Alert) (l : Text × Bool) : Store × List Alert :=
  match (parseItem l.1).alert? with
  | none => x
  | some a =>
    let s := x.1.pull K p a
    -- `insert_alert` is `Ok(true)`
    if l.2 && !s.alerts.any (K.row · = K.row a) then
      ({ s with alerts := a :: s.alerts }, if p.forwards a then x.2 ++ [a] else x.2)
    else (s, x.2)

/-- `process_output`. -/
def processOutput (s : Store) (p : Pull) : Store :=
  let x := p.lines.foldl (takeLine K p) (s, [])
  let ingested := match p.stops with
    | some n => x.2.take n
    | none => x.2
  { x.1 with
    events := addAll K.event x.1.events (ingested.filter (!p.suppresses K ·))
    passed := if p.moves then x.1.pulled else x.1.passed }

def Store.empty : Store := ⟨[], [], [], [], []⟩

/-- Each alert is stored once, each that was due gave one event, and the position is not past an
alert that is not stored. -/
structure ExactlyOnce (s : Store) : Prop where
  stored : ∀ a ∈ s.pulled, s.alerts.count a = 1
  forwarded : ∀ a ∈ s.due, s.events.count a = 1
  passed : ∀ a ∈ s.passed, a ∈ s.alerts

/-- The inserts work, Thanatos takes all lines, and no two alerts differ only in what a hash leaves
out. -/
structure Clear (s : Store) (p : Pull) : Prop where
  inserts : ∀ l ∈ p.lines, (parseItem l.1).alert?.isSome = true → l.2 = true
  taken : p.stops = none
  rows : ∀ a ∈ p.alerts, ∀ b ∈ s.pulled ++ p.alerts, K.row a = K.row b → a = b
  events : ∀ a ∈ p.alerts, ∀ b ∈ s.events ++ p.alerts, p.forwards a = true →
    K.event a = K.event b → a = b

/-! ### One pull -/

variable {K : Keys} {p : Pull} {s : Store} {x : Store × List Alert} {a : Alert}

/-- What holds before and after each pull that goes well. -/
structure Kept (K : Keys) (s : Store) : Prop where
  mem : ∀ a, a ∈ s.pulled ↔ a ∈ s.alerts
  rows : (s.alerts.map K.row).Nodup
  due : ∀ a ∈ s.due, a ∈ s.events
  events : (s.events.map K.event).Nodup
  passed : ∀ a ∈ s.passed, a ∈ s.pulled

/-- What holds after each line of a pull. An alert that is due is in Thanatos or forwarded. -/
structure Between (K : Keys) (p : Pull) (s : Store) (x : Store × List Alert) : Prop where
  mem : ∀ a, a ∈ x.1.pulled ↔ a ∈ x.1.alerts
  rows : (x.1.alerts.map K.row).Nodup
  due : ∀ a ∈ x.1.due, a ∈ s.events ∨ a ∈ x.2 ∧ p.suppresses K a = false
  forwarded : ∀ a ∈ x.2, a ∈ p.alerts ∧ p.forwards a = true
  pulled : ∀ a ∈ x.1.pulled, a ∈ s.pulled ++ p.alerts
  events : x.1.events = s.events
  passed : ∀ a ∈ x.1.passed, a ∈ x.1.pulled

theorem Kept.between (h : Kept K s) (p : Pull) : Between K p s (s, []) where
  mem := h.mem
  rows := h.rows
  due a ha := .inl (h.due a ha)
  forwarded := forall_mem_nil _
  pulled _ := mem_append_left _
  events := rfl
  passed := h.passed

/-- An alert whose row is there was pulled before. -/
theorem Between.known (h : Between K p s x) (hp : Clear K s p) (ha : a ∈ p.alerts)
    (hrow : x.1.alerts.any (K.row · = K.row a)) : a ∈ x.1.pulled := by
  obtain ⟨b, hb, hrow⟩ := any_eq_true.1 hrow
  have hpulled := (h.mem b).2 hb
  have heq := hp.rows a ha b (h.pulled b hpulled) (of_decide_eq_true hrow).symm
  exact heq ▸ hpulled

private theorem due_pull_of_mem (h : a ∈ s.pulled) : (s.pull K p a).due = s.due := by
  have hany : s.pulled.any (· = a) := any_eq_true.2 ⟨a, h, decide_eq_true rfl⟩
  simp [Store.pull, hany]

private theorem mem_due_pull {b : Alert} (h : b ∈ (s.pull K p a).due) :
    b ∈ s.due ∨ b = a ∧ p.forwards a ∧ p.suppresses K a = false := by
  rw [Store.pull] at h
  simp only at h
  split_ifs at h with hdue
  · rcases mem_cons.1 h with rfl | h
    · simp only [Bool.and_eq_true, Bool.not_eq_true'] at hdue
      exact .inr ⟨rfl, hdue.1.2, hdue.2⟩
    · exact .inl h
  · exact .inl h

theorem Between.takeLine (h : Between K p s x) (hp : Clear K s p) {l : Text × Bool}
    (hl : l ∈ p.lines) : Between K p s (takeLine K p x l) := by
  rw [Scourge.takeLine]
  cases halert : (parseItem l.1).alert? with
  | none => exact h
  | some a =>
    have ha : a ∈ p.alerts := mem_filterMap.2 ⟨l, hl, halert⟩
    have hok : l.2 := hp.inserts l hl (by rw [halert]; rfl)
    have hpulled := forall_mem_cons.2 ⟨mem_append_right _ ha, h.pulled⟩
    have hpassed : ∀ b ∈ x.1.passed, b ∈ a :: x.1.pulled := fun b hb =>
      mem_cons_of_mem a (h.passed b hb)
    simp only [hok, Bool.true_and]
    cases hrow : x.1.alerts.any (K.row · = K.row a) with
    | true =>
      have hknown := h.known hp ha hrow
      have hnot : (!(x.1.pull K p a).alerts.any (K.row · = K.row a)) = false := by
        rwa [Bool.not_eq_false']
      rw [if_neg (by rw [hnot]; exact Bool.false_ne_true)]
      refine ⟨fun b => ?_, h.rows, ?_, h.forwarded, hpulled, h.events, hpassed⟩
      · refine Iff.trans ?_ (h.mem b)
        exact ⟨fun hb => (mem_cons.1 hb).elim (· ▸ hknown) id, mem_cons_of_mem a⟩
      · rw [due_pull_of_mem hknown]
        exact h.due
    | false =>
      have hnot : (!(x.1.pull K p a).alerts.any (K.row · = K.row a)) := by
        rwa [Bool.not_eq_true']
      rw [if_pos hnot]
      refine ⟨fun b => ?_, nodup_cons.2 ⟨?_, h.rows⟩, fun b hb => ?_, fun b hb => ?_, hpulled,
        h.events, hpassed⟩
      · rw [Store.pull, mem_cons, mem_cons, h.mem b]
      · intro hmem
        obtain ⟨b, hb, heq⟩ := mem_map.1 hmem
        have hany : x.1.alerts.any (K.row · = K.row a) := any_eq_true.2 ⟨b, hb, decide_eq_true heq⟩
        cases hrow.symm.trans hany
      · rcases mem_due_pull hb with hb | ⟨rfl, hforwards, hsuppresses⟩
        · refine (h.due b hb).imp_right fun hb => ⟨?_, hb.2⟩
          split_ifs
          · exact mem_append_left _ hb.1
          · exact hb.1
        · rw [if_pos hforwards]
          exact .inr ⟨mem_append_right _ mem_cons_self, hsuppresses⟩
      · split_ifs at hb with hforwards
        · rcases mem_append.1 hb with hb | hb
          · exact h.forwarded b hb
          · exact mem_singleton.1 hb ▸ ⟨ha, hforwards⟩
        · exact h.forwarded b hb

theorem Between.takeLines (h : Between K p s x) (hp : Clear K s p) {ls : List (Text × Bool)}
    (hls : ls ⊆ p.lines) : Between K p s (ls.foldl (Scourge.takeLine K p) x) := by
  induction ls generalizing x with
  | nil => exact h
  | cons _ _ ih =>
    obtain ⟨hl, hls⟩ := cons_subset.1 hls
    exact ih (h.takeLine hp hl) hls

theorem Kept.processOutput (h : Kept K s) (hp : Clear K s p) : Kept K (processOutput K s p) := by
  have hx := (h.between p).takeLines hp (Subset.refl p.lines)
  simp only [Scourge.processOutput, hp.taken]
  refine ⟨hx.mem, hx.rows, fun a ha => ?_, ?_, fun a ha => ?_⟩
  · refine mem_addAll_of_injOn ?_ fun hmem b hb => ?_
    · rw [hx.events]
      refine (hx.due a ha).imp_right fun hdue => mem_filter.2 ⟨hdue.1, ?_⟩
      rw [hdue.2]
      rfl
    · obtain ⟨halert, hforwards⟩ := hx.forwarded a (mem_of_mem_filter hmem)
      refine hp.events a halert b ?_ hforwards
      rw [hx.events] at hb
      refine (mem_append.1 hb).elim (mem_append_left _) fun hb => ?_
      exact mem_append_right _ (hx.forwarded b (mem_of_mem_filter hb)).1
  · exact nodup_addAll (hx.events ▸ h.events) _
  · split_ifs at ha
    · exact ha
    · exact hx.passed a ha

/-! ### Runs -/

theorem Kept.exactlyOnce (h : Kept K s) : ExactlyOnce s where
  stored a ha := count_eq_one_of_mem (Nodup.of_map _ h.rows) ((h.mem a).1 ha)
  forwarded a ha := count_eq_one_of_mem (Nodup.of_map _ h.events) (h.due a ha)
  passed a ha := (h.mem a).1 (h.passed a ha)

/-- In every run whose pulls all go well, each alert is stored once and gives one event if it is
due. -/
theorem exactlyOnce_of_reached (h : Machine.Reached (processOutput K) (Clear K) .empty s) :
    ExactlyOnce s := by
  have hempty : Kept K .empty :=
    ⟨fun _ => Iff.rfl, nodup_nil, forall_mem_nil _, nodup_nil, forall_mem_nil _⟩
  exact (h.inv hempty fun s p hs hp => hs.processOutput hp).exactlyOnce

def plainKeys : Keys := ⟨1, id, plainSetup⟩

def alertLine (time port : String) : Text :=
  ("alert\t" ++ time ++ "\thigh\t7\tscan\t-\tTCP\t10.0.0.9\t" ++ port ++ "\t10.0.0.1\t22").toList

def plainPull (lines : List (Text × Bool)) : Pull := ⟨lines, .low, true, [], none⟩

def cursorLine : Text := "cursor\t5\t900"

def otherAlert : Text := "alert\t12:05\tlow\t8\tprobe\t-\tUDP\t10.0.0.8\t53\t10.0.0.1\t53"

theorem exactlyOnce_of_reached_two :
    ExactlyOnce (processOutput plainKeys (processOutput plainKeys .empty
        (plainPull [(alertLine "12:00" "4000", true), (cursorLine, true)]))
      (plainPull [(otherAlert, true), (cursorLine, true)])) := by
  refine exactlyOnce_of_reached (.next (.next .start ⟨?_, rfl, ?_, ?_⟩) ⟨?_, rfl, ?_, ?_⟩)
  all_goals decide +kernel

/-- An alert that could not be stored is behind the position; of two that differ in the port one is
stored; of one alert at two times one gives an event. -/
theorem not_exactlyOnce_of_failure_and_of_port_and_of_time :
    ¬ ExactlyOnce (processOutput plainKeys .empty
        (plainPull [(alertLine "12:00" "4000", false), (cursorLine, true)])) ∧
      ¬ ExactlyOnce (processOutput plainKeys .empty
        (plainPull [(alertLine "12:00" "4000", true), (alertLine "12:00" "4001", true)])) ∧
      ¬ ExactlyOnce (processOutput plainKeys .empty
        (plainPull [(alertLine "12:00" "4000", true), (alertLine "12:01" "4000", true)])) := by
  refine ⟨fun h => ?_, fun h => ?_, fun h => ?_⟩
  · have := h.passed
    revert this
    decide +kernel
  · have := h.stored
    revert this
    decide +kernel
  · have := h.forwarded
    revert this
    decide +kernel

end Abyssal.Scourge
