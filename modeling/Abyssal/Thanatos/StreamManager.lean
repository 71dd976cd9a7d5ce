import Abyssal.Machine.Guarded
import Abyssal.Thanatos.Events

/-!
# The manager of real-time streams

A task tells every Windows agent that is new enough to stream, once per connection, and keeps a
table of those it told, which it empties when monitoring is off. Whether a host that is told to stop
did so is not looked at, and hosts that are not connected are passed over or dropped from the table.
A dispatch is one step here, in which the agent may act without its answer arriving.

## Main results

* `known_of_reached`: who streams is in the table.
-/

namespace Abyssal.Thanatos

open List Function Prod

/-! ### Hosts and streams -/

structure StreamHost where
  id : HostId
  active : Bool
  pendingApproval : Bool
  os : Option String

structure AgentConnection where
  epoch : ℕ
  protocolVersion : Option ℕ

/-- `StreamStatus`, with the error and the time of a start that failed. -/
structure StreamStatus where
  epoch : ℕ
  c2Ports : List ℕ
  failed : Option (String × ℕ)
  since : ℕ
  detail : String

/-- `RETRY_AFTER`, in seconds. -/
def retryAfter : ℕ := 300

/-- The protocol that an agent has to speak to stream. -/
def streamProtocol : ℕ := 44

/-- `Action`. -/
inductive StreamAction
  | start
  | nothing
  deriving DecidableEq

def decideStream (existing : Option StreamStatus) (epoch : ℕ) (c2Ports : List ℕ) (now : ℕ) :
    StreamAction :=
  match existing with
  | none => .start
  | some st =>
    if st.epoch ≠ epoch then .start
    else
      match st.failed with
      | some (_, at_) => if retryAfter ≤ now - at_ then .start else .nothing
      | none => if st.c2Ports ≠ c2Ports then .start else .nothing

/-- How a dispatch ends. One that fails may have changed whether the agent streams. -/
inductive Reply
  | done (detail : String)
  | failed (error : String) (effect : Option Bool)

/-- Where the task is: between two ticks, telling hosts to stop, or going through all hosts. -/
inductive TickPhase
  | idle
  | stopping (rest : List HostId)
  | starting (c2Ports : List ℕ) (rest : List StreamHost)

/-- The task, the settings, the connections, and the agents that stream. -/
structure Manager where
  streams : List (HostId × StreamStatus)
  phase : TickPhase
  enabled : Bool
  c2Ports : List ℕ
  connections : HostId → Option AgentConnection
  nextEpoch : ℕ
  streaming : HostId → Bool
  now : ℕ

inductive ManagerEvent
  | connect (host : HostId) (protocolVersion : Option ℕ)
  | disconnect (host : HostId)
  | restart (host : HostId)
  | setEnabled (enabled : Bool)
  | setPorts (c2Ports : List ℕ)
  | pass (seconds : ℕ)
  /-- A tick begins. The setting and the hosts may be unreadable. -/
  | tick (readable : Bool) (hosts : Option (List StreamHost))
  /-- The next host of a tick has its turn; the reply is that of a dispatch to it. -/
  | turn (reply : Reply)

namespace Manager

variable (s : Manager) (host : HostId)

def isConnected : Bool := (s.connections host).isSome

def supports : Bool :=
  (s.connections host).any fun c => c.protocolVersion.any (streamProtocol ≤ ·)

def get : Option StreamStatus :=
  (s.streams.find? fun entry => entry.1 = host).map snd

def insert (status : StreamStatus) : List (HostId × StreamStatus) :=
  (host, status) :: s.streams.filter fun entry => entry.1 ≠ host

def setStreaming (streaming : Bool) : Manager :=
  { s with streaming := update s.streaming host streaming }

def dispatchStart : Reply → Manager
  | .done _ => s.setStreaming host true
  | .failed _ none => s
  | .failed _ (some streaming) => s.setStreaming host streaming

def dispatchStop : Reply → Manager
  | .done _ => s.setStreaming host false
  | .failed _ none => s
  | .failed _ (some _) => s.setStreaming host false

def statusAfter (epoch : ℕ) (c2Ports : List ℕ) : Reply → StreamStatus
  | .done detail => ⟨epoch, c2Ports, none, s.now, detail⟩
  | .failed error _ => ⟨epoch, c2Ports, some (error, s.now), s.now, ""⟩

def startTurn (host : StreamHost) (c2Ports : List ℕ) (reply : Reply) : Manager :=
  if !host.active || host.pendingApproval || host.os ≠ some "windows" || !s.supports host.id then s
  else
    match s.connections host.id with
    | none => s
    | some c =>
      if decideStream (s.get host.id) c.epoch c2Ports s.now = .nothing then s
      else
        { s.dispatchStart host.id reply with
          streams := s.insert host.id (s.statusAfter c.epoch c2Ports reply) }

def stopTurn (reply : Reply) : Manager :=
  if s.isConnected host then s.dispatchStop host reply else s

/-- The first part of `tick`. -/
def beginTick (readable : Bool) (hosts : Option (List StreamHost)) : Manager :=
  if readable && s.enabled then
    match hosts with
    | none => s
    | some hosts =>
      { s with
        streams := s.streams.filter fun entry => s.isConnected entry.1
        phase := .starting s.c2Ports hosts }
  else { s with streams := [], phase := .stopping (s.streams.map fst) }

end Manager

def managerStep (s : Manager) : ManagerEvent → Manager
  | .connect host version =>
    { s with
      connections := update s.connections host (some ⟨s.nextEpoch + 1, version⟩)
      nextEpoch := s.nextEpoch + 1 }
  | .disconnect host => { s with connections := update s.connections host none }
  | .restart host => s.setStreaming host false
  | .setEnabled enabled => { s with enabled := enabled }
  | .setPorts c2Ports => { s with c2Ports := c2Ports }
  | .pass seconds => { s with now := s.now + seconds }
  | .tick readable hosts =>
    match s.phase with
    | .idle => s.beginTick readable hosts
    | _ => s
  | .turn reply =>
    match s.phase with
    | .idle => s
    | .stopping [] | .starting _ [] => { s with phase := .idle }
    | .stopping (host :: rest) => { s.stopTurn host reply with phase := .stopping rest }
    | .starting c2Ports (host :: rest) =>
      { s.startTurn host c2Ports reply with phase := .starting c2Ports rest }

/-! ### Agents that are not forgotten -/

def TickPhase.waiting : TickPhase → List HostId
  | stopping rest => rest
  | idle | starting _ _ => []

def Reply.acted : Reply → Bool
  | done _ => true
  | failed _ effect => effect.isSome

/-- A host that streams is connected when the task looks at it, and does stop when told. -/
def Reliable (s : Manager) : ManagerEvent → Prop
  | .tick readable _ => (readable && s.enabled) = true →
      ∀ entry ∈ s.streams, s.streaming entry.1 = true → s.isConnected entry.1 = true
  | .turn reply => ∀ host ∈ s.phase.waiting.head?, s.streaming host = true →
      s.isConnected host = true ∧ reply.acted = true
  | _ => True

instance (s : Manager) (e : ManagerEvent) : Decidable (Reliable s e) :=
  match e with
  | .tick readable _ => inferInstanceAs (Decidable ((readable && s.enabled) = true →
      ∀ entry ∈ s.streams, s.streaming entry.1 = true → s.isConnected entry.1 = true))
  | .turn reply => inferInstanceAs (Decidable (∀ host ∈ s.phase.waiting.head?,
      s.streaming host = true → s.isConnected host = true ∧ reply.acted = true))
  | .connect _ _ | .disconnect _ | .restart _ | .setEnabled _ | .setPorts _ | .pass _ =>
    inferInstanceAs (Decidable True)

/-- Every agent that streams is in the table or about to be told to stop, which empties the table.
-/
structure Accounted (s : Manager) : Prop where
  known : ∀ host, s.streaming host = true →
    host ∈ s.streams.map fst ∨ host ∈ s.phase.waiting
  drained : ∀ rest, s.phase = .stopping rest → s.streams = []

variable {s : Manager}

theorem Accounted.mem_streams (h : Accounted s) (hphase : s.phase.waiting = []) {host : HostId}
    (hs : s.streaming host) : host ∈ s.streams.map fst := by
  have hk := h.known host hs
  rw [hphase] at hk
  exact hk.resolve_right not_mem_nil

variable {host host' : HostId}

theorem streaming_setStreaming {b : Bool} (h : (s.setStreaming host b).streaming host') :
    (host' = host ∧ b) ∨ (host' ≠ host ∧ s.streaming host') := by
  change update s.streaming host b host' = true at h
  by_cases hhost : host' = host
  · subst hhost
    rw [update_self] at h
    exact .inl ⟨rfl, h⟩
  · rw [update_of_ne hhost] at h
    exact .inr ⟨hhost, h⟩

theorem streaming_dispatchStart {reply : Reply} (h : (s.dispatchStart host reply).streaming host') :
    host' = host ∨ s.streaming host' := by
  cases reply with
  | done => exact (streaming_setStreaming h).imp And.left And.right
  | failed _ effect =>
    cases effect with
    | none => exact .inr h
    | some => exact (streaming_setStreaming h).imp And.left And.right

theorem streaming_dispatchStop {reply : Reply} (hacted : s.streaming host → reply.acted)
    (h : (s.dispatchStop host reply).streaming host') : host' ≠ host ∧ s.streaming host' := by
  have hset : (s.setStreaming host false).streaming host' →
      host' ≠ host ∧ s.streaming host' := fun h =>
    (streaming_setStreaming h).resolve_left fun hb => Bool.false_ne_true hb.2
  cases reply with
  | done => exact hset h
  | failed _ effect =>
    cases effect with
    | none =>
      refine ⟨?_, h⟩
      rintro rfl
      exact Bool.false_ne_true (hacted h)
    | some => exact hset h

theorem startTurn_cases (s : Manager) (host : StreamHost) (c2Ports : List ℕ) (reply : Reply) :
    s.startTurn host c2Ports reply = s ∨ ∃ status, s.startTurn host c2Ports reply =
      { s.dispatchStart host.id reply with streams := s.insert host.id status } := by
  rw [Manager.startTurn]
  split_ifs
  · exact .inl rfl
  cases s.connections host.id with
  | none => exact .inl rfl
  | some =>
    dsimp only
    split_ifs
    · exact .inl rfl
    · exact .inr ⟨_, rfl⟩

private theorem mem_insert {status : StreamStatus} (h : host' = host ∨ host' ∈ s.streams.map fst) :
    host' ∈ (s.insert host status).map fst := by
  by_cases hhost : host' = host
  · subst hhost
    exact mem_cons_self
  · obtain ⟨_, hentry, rfl⟩ := mem_map.1 (h.resolve_left hhost)
    refine mem_cons_of_mem _ (mem_map_of_mem (mem_filter.2 ⟨hentry, ?_⟩))
    exact decide_eq_true hhost

private theorem streams_stopTurn (s : Manager) (host : HostId) (reply : Reply) :
    (s.stopTurn host reply).streams = s.streams := by
  rw [Manager.stopTurn]
  split_ifs
  · cases reply with
    | done => rfl
    | failed _ effect =>
      cases effect with
      | none | some => rfl
  · rfl

theorem Accounted.startTurn (h : Accounted s) {host : StreamHost} {c2Ports : List ℕ}
    {rest : List StreamHost} (hphase : s.phase = .starting c2Ports (host :: rest)) (reply : Reply) :
    Accounted { s.startTurn host c2Ports reply with phase := .starting c2Ports rest } := by
  have hwaiting := congrArg TickPhase.waiting hphase
  refine ⟨fun host' hs => .inl ?_, nofun⟩
  rcases startTurn_cases s host c2Ports reply with hturn | ⟨status, hturn⟩
  · rw [hturn] at hs ⊢
    exact h.mem_streams hwaiting hs
  · rw [hturn] at hs ⊢
    exact mem_insert ((streaming_dispatchStart hs).imp_right (h.mem_streams hwaiting))

theorem Accounted.stopTurn (h : Accounted s) {host : HostId} {rest : List HostId}
    (hphase : s.phase = .stopping (host :: rest)) {reply : Reply}
    (hstop : s.streaming host → s.isConnected host ∧ reply.acted) :
    Accounted { s.stopTurn host reply with phase := .stopping rest } := by
  have hrest : ∀ host', s.streaming host' → host' ≠ host → host' ∈ rest := by
    intro host' hs hne
    have hk := h.known host' hs
    rw [hphase, h.drained _ hphase] at hk
    exact (mem_cons.1 (hk.resolve_left not_mem_nil)).resolve_left hne
  have hdrained := (streams_stopTurn s host reply).trans (h.drained _ hphase)
  refine ⟨fun host' hs => .inr ?_, fun _ _ => hdrained⟩
  by_cases hconn : s.isConnected host
  · change (s.stopTurn host reply).streaming host' = true at hs
    rw [Manager.stopTurn, if_pos hconn] at hs
    obtain ⟨hne, hs⟩ := streaming_dispatchStop (fun hs => (hstop hs).2) hs
    exact hrest host' hs hne
  · change (s.stopTurn host reply).streaming host' = true at hs
    rw [Manager.stopTurn, if_neg hconn] at hs
    refine hrest host' hs ?_
    rintro rfl
    exact hconn (hstop hs).1

theorem Accounted.beginTick (h : Accounted s) (hphase : s.phase = .idle) {readable : Bool}
    {hosts : Option (List StreamHost)} (hconn : (readable && s.enabled) →
      ∀ entry ∈ s.streams, s.streaming entry.1 → s.isConnected entry.1) :
    Accounted (s.beginTick readable hosts) := by
  have hwaiting := congrArg TickPhase.waiting hphase
  unfold Manager.beginTick
  split_ifs with hon
  · cases hosts with
    | none => exact h
    | some =>
      refine ⟨fun host hs => .inl ?_, nofun⟩
      obtain ⟨entry, hentry, rfl⟩ := mem_map.1 (h.mem_streams hwaiting hs)
      exact mem_map_of_mem (mem_filter.2 ⟨hentry, hconn hon entry hentry hs⟩)
  · exact ⟨fun host hs => .inr (h.mem_streams hwaiting hs), fun _ _ => rfl⟩

theorem Accounted.step (h : Accounted s) {e : ManagerEvent} (he : Reliable s e) :
    Accounted (managerStep s e) := by
  cases e with
  | connect | disconnect | setEnabled | setPorts | pass => exact ⟨h.known, h.drained⟩
  | restart =>
    refine ⟨fun host' hs => h.known host' ?_, h.drained⟩
    exact ((streaming_setStreaming hs).resolve_left fun hb => Bool.false_ne_true hb.2).2
  | tick =>
    rw [managerStep]
    cases hphase : s.phase with
    | idle => exact h.beginTick hphase he
    | stopping | starting => exact h
  | turn reply =>
    have hover : s.phase.waiting = [] → Accounted { s with phase := .idle } := fun hwaiting =>
      ⟨fun host hs => .inl (h.mem_streams hwaiting hs), nofun⟩
    rw [managerStep]
    cases hphase : s.phase with
    | idle => exact h
    | stopping rest =>
      cases rest with
      | nil => exact hover (congrArg TickPhase.waiting hphase)
      | cons host =>
        refine h.stopTurn hphase (he host ?_)
        rw [hphase]
        rfl
    | starting _ rest =>
      cases rest with
      | nil => exact hover (congrArg TickPhase.waiting hphase)
      | cons => exact h.startTurn hphase reply

/-- In every reliable run, every agent that streams is in the table or about to be told. At the end
of a tick with monitoring off, no agent streams. -/
theorem known_of_reached {s₀ : Manager} (hphase : s₀.phase = .idle)
    (hstreaming : ∀ host, s₀.streaming host = false)
    (h : Machine.Reached managerStep Reliable s₀ s) :
    (∀ host, s.streaming host → host ∈ s.streams.map fst ∨ host ∈ s.phase.waiting) ∧
    (s.phase = .idle → s.enabled = false → ∀ readable hosts,
      (managerStep s (.tick readable hosts)).phase.waiting = s.streams.map fst) ∧
    (s.phase = .stopping [] → ∀ host, s.streaming host = false) := by
  have hs : Accounted s := by
    refine h.inv ⟨fun host hs => ?_, fun rest hrest => ?_⟩ fun s e hs he => hs.step he
    · rw [hstreaming host] at hs
      cases hs
    · rw [hphase] at hrest
      cases hrest
  refine ⟨hs.known, fun hidle hoff readable hosts => ?_, fun hend host => ?_⟩
  · rw [managerStep, hidle]
    dsimp only
    unfold Manager.beginTick
    rw [hoff, Bool.and_false]
    rfl
  · by_contra hne
    rcases hs.known host (by simpa using hne) with hmem | hmem
    · rw [hs.drained [] hend] at hmem
      exact not_mem_nil hmem
    · rw [hend] at hmem
      exact not_mem_nil hmem

/-! ### A stop that times out -/

def oneHost : Manager where
  streams := []
  phase := .idle
  enabled := true
  c2Ports := [4444]
  connections host := if host = 1 then some ⟨1, some 44⟩ else none
  nextEpoch := 1
  streaming _ := false
  now := 0

/-- A tick that starts the host, and then one with monitoring off. -/
def switchedOff (reply : Reply) : List ManagerEvent :=
  [.tick true (some [⟨1, true, false, some "windows"⟩]), .turn (.done "watching"),
    .turn (.done ""), .setEnabled false, .tick true none, .turn reply]

theorem known_of_reached_off :
    ((switchedOff (.done "stopped")).foldl managerStep oneHost).streaming 1 = false :=
  (known_of_reached rfl (fun _ => rfl)
    (Machine.reached_of_allows (by decide))).2.2 rfl 1

/-- After a tick with monitoring off, the agent streams and is not in the table, and further ticks
leave it so. -/
theorem forgotten_of_timeout :
    ∃ s, Machine.Reached managerStep (fun _ _ => True) oneHost s ∧ s.phase = .idle ∧
      s.enabled = false ∧ s.isConnected 1 ∧ s.streaming 1 ∧ s.streams = [] ∧
      ∀ readable hosts reply,
        managerStep (managerStep s (.tick readable hosts)) (.turn reply) = s := by
  refine ⟨(switchedOff (.failed "timeout" none) ++ [ManagerEvent.turn (.done "")]).foldl
    managerStep oneHost, Machine.reached_of_allows rfl, rfl, rfl, rfl, rfl, rfl, ?_⟩
  intro readable hosts reply
  cases readable with
  | false | true => rfl

end Abyssal.Thanatos
