import Mathlib.Data.Finset.Basic
import Abyssal.Resumption.Interleaving

/-!
# The registry of agent connections

The registry is shared by the handlers of the connected agents and by the calls that dispatch an
operation to a host. An atomic operation is what happens under one lock, one counter update, or one
poll of a channel. A handler has one channel and a dispatch call one one-shot channel, so both are
named by the thread. `latest`, `live`, `sweeps`, `received` and `calls` are auxiliary: no operation
reads them.

## Main results

* `supports_iff_passesChecks_iff`: when the two checks agree.
-/

namespace Abyssal.Hosts

open Resumption Function

abbrev HostId := ℕ

abbrev RequestId := ℕ

/-- A handler or a dispatch call. It also names the channel that the handler or call owns. -/
abbrev ThreadId := ℕ

structure ControlPlaneProtection where
  ports : Finset ℕ
  dockerDevice : Option String

variable (Operation : Type)

/-- The protocol an operation needs, its name, and whether it may be sent to the control plane's own
server. -/
structure OperationTable where
  minProtocol : Operation → ℕ
  operationName : Operation → String
  check : Operation → ControlPlaneProtection → Except String Unit

inductive CommandOutcome
  | ok (stdout stderr : String) (exitCode : Option ℤ)
  | err (message : String)
  deriving DecidableEq

inductive ServerMessage
  | command (requestId : RequestId) (operation : Operation)
  | ping

inductive AgentMessage
  | response (requestId : RequestId) (outcome : CommandOutcome)
  | pong
  | telemetry (stdout : String)

inductive DispatchError
  | notConnected
  | timeout
  | connectionClosed
  | refused (reason : String)
  | agentTooOld (operation : String) (needed : ℕ) (has : Option ℕ)
  deriving DecidableEq

/-- The registered connection of a host. `chan` is the handler whose channel `sender` feeds. -/
structure Connection where
  chan : ThreadId
  protocolVersion : Option ℕ
  epoch : ℕ

structure Channel where
  queue : List (ServerMessage Operation)
  receiver : Bool

/-- The one-shot channel of a dispatch call: not created, without an answer yet, answered, or
with its sender dropped. -/
inductive Oneshot
  | unused
  | waiting
  | sent (outcome : CommandOutcome)
  | dropped
  deriving DecidableEq

/-- The command, its host, and the dispatch call whose one-shot sender it holds. -/
structure PendingEntry where
  requestId : RequestId
  host : HostId
  waiter : ThreadId
  deriving DecidableEq

/-- How far a dispatch call has come. One that timed out records how many `unregister`s had
completed. -/
inductive Stage
  | lookedUp
  | inserted
  | awaiting
  | done
  | timedOut (sweeps : ℕ)
  deriving DecidableEq

/-- The host and the connection of a call, how many `unregister`s had completed at its lookup,
whether another did before it inserted its entry, and the id of its command. -/
structure CallTrack where
  host : HostId
  chan : ThreadId
  sweeps : ℕ
  late : Bool
  request : Option RequestId
  stage : Stage
  deriving DecidableEq

def CallTrack.inserted (t : CallTrack) (sweeps : ℕ) (requestId : RequestId) : CallTrack :=
  { t with late := sweeps ≠ t.sweeps, request := some requestId, stage := .inserted }

structure Received where
  host : HostId
  requestId : RequestId
  outcome : CommandOutcome

/-- The registry, the channels, the id source, and the auxiliary components. -/
structure State where
  connections : HostId → Option Connection
  pending : List PendingEntry
  controlPlane : HostId → Bool
  nextEpoch : ℕ
  protection : ControlPlaneProtection
  channels : ThreadId → Channel Operation
  oneshots : ThreadId → Oneshot
  nextRequest : ℕ
  latest : HostId → Option ThreadId
  live : ThreadId → Bool
  sweeps : HostId → ℕ
  received : List Received
  calls : ThreadId → Option CallTrack

def State.new {Operation : Type} (protection : ControlPlaneProtection) : State Operation where
  connections _ := none
  pending := []
  controlPlane _ := false
  nextEpoch := 0
  protection := protection
  channels _ := ⟨[], false⟩
  oneshots _ := .unused
  nextRequest := 0
  latest _ := none
  live _ := false
  sweeps _ := 0
  received := []
  calls _ := none

/-- What the loop of a handler picked up: its heartbeat, a message for the agent, a frame from the
agent, or the end. -/
inductive Selected
  | heartbeat (sent : Bool)
  | outgoing (sent : Bool)
  | incoming (message : Option AgentMessage)
  | closed

inductive Awaited
  | outcome (outcome : CommandOutcome)
  | closed
  | elapsed

inductive Op
  | createChannel
  | setControlPlane (host : HostId) (flag : Bool)
  | isControlPlane (host : HostId)
  | readProtection
  | setDockerDevice (device : Option String)
  | fetchEpoch
  | insertConnection (host : HostId) (protocolVersion : Option ℕ) (epoch : ℕ)
  | removeConnection (host : HostId)
  | retainPending (host : HostId)
  | closeReceiver
  | select (host : HostId)
  | resolve (requestId : RequestId) (outcome : CommandOutcome)
  | lookup (host : HostId)
  | insertPending (host : HostId)
  | send (sender : ThreadId) (message : ServerMessage Operation)
  | removePending (requestId : RequestId)
  | await

abbrev Resp {Operation : Type} : Op Operation → Type
  | .isControlPlane _ => Bool
  | .readProtection => ControlPlaneProtection
  | .fetchEpoch => ℕ
  | .select _ => Selected
  | .lookup _ => Option (ThreadId × Option ℕ)
  | .insertPending _ => RequestId
  | .send _ _ => Bool
  | .await => Awaited
  | _ => Unit

/-- Which arm of its `select` a handler takes, and that the timeout of a waiting call elapses. -/
inductive Choice
  | go
  | heartbeat (sent : Bool)
  | outgoing (sent : Bool)
  | incoming (message : Option AgentMessage)
  | hangUp
  | elapse

def channelCapacity : ℕ := 16

namespace State

variable {Operation : Type} (s : State Operation)

def track (i : ThreadId) (f : CallTrack → CallTrack) : State Operation :=
  { s with calls := update s.calls i ((s.calls i).map f) }

def setStage (i : ThreadId) (stage : CallTrack → Stage) : State Operation :=
  s.track i fun t => { t with stage := stage t }

def removeEntries (p : PendingEntry → Bool) : State Operation :=
  { s with
    pending := s.pending.filter fun e => !p e
    oneshots := fun j =>
      if s.oneshots j = .waiting ∧ ∃ e ∈ s.pending, p e ∧ e.waiter = j then .dropped
      else s.oneshots j }

def answer (waiter : ThreadId) (outcome : CommandOutcome) : State Operation :=
  { s with
    oneshots := update s.oneshots waiter
      (if s.oneshots waiter = .waiting then .sent outcome else s.oneshots waiter) }

def hear (host : HostId) : Option AgentMessage → State Operation
  | some (.response r o) => { s with received := s.received ++ [⟨host, r, o⟩] }
  | _ => s

end State

/-- The effect of the operation of thread `i`, `none` where it has to wait. -/
def exec {Operation : Type} (i : ThreadId) :
    (op : Op Operation) → Choice → State Operation → Option (State Operation × Resp op)
  | .createChannel, _, s =>
    some ({ s with channels := update s.channels i ⟨[], true⟩ }, ())
  | .setControlPlane host flag, _, s =>
    some ({ s with controlPlane := update s.controlPlane host flag }, ())
  | .isControlPlane host, _, s => some (s, s.controlPlane host)
  | .readProtection, _, s => some (s, s.protection)
  | .setDockerDevice device, _, s =>
    some ({ s with protection := { s.protection with dockerDevice := device } }, ())
  | .fetchEpoch, _, s => some ({ s with nextEpoch := s.nextEpoch + 1 }, s.nextEpoch + 1)
  | .insertConnection host version epoch, _, s =>
    some ({ s with
      connections := update s.connections host (some ⟨i, version, epoch⟩)
      latest := update s.latest host (some i)
      live := update s.live i true }, ())
  | .removeConnection host, _, s =>
    some ({ s with
      connections := update s.connections host none
      live := update s.live i false }, ())
  | .retainPending host, _, s =>
    let s' := s.removeEntries fun e => e.host = host
    some ({ s' with
      live := update s.live i false
      sweeps := update s.sweeps host (s.sweeps host + 1) }, ())
  | .closeReceiver, _, s =>
    some ({ s with channels := update s.channels i ⟨[], false⟩ }, ())
  | .select _, .heartbeat sent, s => some (s, .heartbeat sent)
  | .select _, .outgoing sent, s =>
    match (s.channels i).queue with
    | [] => none
    | _ :: rest =>
      some ({ s with
        channels := update s.channels i { s.channels i with queue := rest } },
        .outgoing sent)
  | .select host, .incoming message, s => some (s.hear host message, .incoming message)
  | .select _, .hangUp, s => some (s, .closed)
  | .select _, _, _ => none
  | .resolve requestId outcome, _, s =>
    match s.pending.find? fun e => e.requestId = requestId with
    | none => some (s, ())
    | some e =>
      some (({ s with pending := s.pending.filter fun e => e.requestId ≠ requestId } :
        State Operation).answer e.waiter outcome, ())
  | .lookup host, _, s =>
    match s.connections host with
    | none => some (s, none)
    | some c =>
      some ({ s with
        calls := update s.calls i
          (some ⟨host, c.chan, s.sweeps host, false, none, .lookedUp⟩) },
        some (c.chan, c.protocolVersion))
  | .insertPending host, _, s =>
    let s' := s.track i fun t => t.inserted (s.sweeps host) s.nextRequest
    some ({ s' with
      pending := ⟨s.nextRequest, host, i⟩ :: s.pending
      oneshots := update s.oneshots i .waiting
      nextRequest := s.nextRequest + 1 }, s.nextRequest)
  | .send sender message, _, s =>
    if (s.channels sender).receiver then
      if (s.channels sender).queue.length < channelCapacity then
        let s' := s.setStage i fun _ => .awaiting
        some ({ s' with
          channels := update s.channels sender
            { s.channels sender with queue := (s.channels sender).queue ++ [message] } }, true)
      else none
    else some (s.setStage i fun _ => .done, false)
  | .removePending requestId, _, s =>
    some (s.removeEntries fun e => e.requestId = requestId, ())
  | .await, .elapse, s =>
    match s.oneshots i with
    | .waiting => some (s.setStage i fun t => .timedOut (s.sweeps t.host), .elapsed)
    | _ => none
  | .await, _, s =>
    match s.oneshots i with
    | .sent o => some (s.setStage i fun _ => .done, .outcome o)
    | .dropped => some (s.setStage i fun _ => .done, .closed)
    | _ => none

/-! ### The programs -/

section Programs

variable {Operation : Type}

abbrev Program (Operation : Type) := Prog (Op Operation) Resp

abbrev perform (op : Op Operation) : Program Operation (Resp op) := Prog.perform op

def register (host : HostId) (protocolVersion : Option ℕ) : Program Operation Unit := do
  let epoch ← perform .fetchEpoch
  perform (.insertConnection host protocolVersion epoch)

def unregister (host : HostId) : Program Operation Unit := do
  perform (.removeConnection host)
  perform (.retainPending host)

variable (T : OperationTable Operation)

def guard (host : HostId) (operation : Operation) : Program Operation (Except String Unit) := do
  if ← perform (.isControlPlane host) then
    return T.check operation (← perform .readProtection)
  else
    return .ok ()

/-- The part of `dispatch` after its checks: the request is entered into the pending table, sent
and awaited. -/
def sendAndAwait (host : HostId) (sender : ThreadId) (operation : Operation) :
    Program Operation (Except DispatchError CommandOutcome) := do
  let requestId ← perform (.insertPending host)
  if ← perform (.send sender (.command requestId operation)) then
    match ← perform .await with
    | .outcome outcome => return .ok outcome
    | .closed => return .error .connectionClosed
    | .elapsed =>
      perform (.removePending requestId)
      return .error .timeout
  else
    perform (.removePending requestId)
    return .error .connectionClosed

def dispatch (host : HostId) (operation : Operation) :
    Program Operation (Except DispatchError CommandOutcome) := do
  match ← guard T host operation with
  | .error reason => return .error (.refused reason)
  | .ok () =>
    match ← perform (.lookup host) with
    | none => return .error .notConnected
    | some (sender, has) =>
      let needed := T.minProtocol operation
      if has.getD 0 < needed then
        return .error (.agentTooOld (T.operationName operation) needed has)
      else
        sendAndAwait host sender operation

/-- `handle_agent_message`, on the registry. -/
def handleAgentMessage : AgentMessage → Program Operation Unit
  | .response requestId outcome => perform (.resolve requestId outcome)
  | .pong => return ()
  | .telemetry _ => return ()

/-- The loop of `handle_socket`, for at most `rounds` turns. After them the connection ends, as
it may in any turn. -/
def serve (host : HostId) : (rounds : ℕ) → Program Operation Unit
  | 0 => return ()
  | rounds + 1 => do
    match ← perform (.select host) with
    | .heartbeat sent => if sent then serve host rounds else return ()
    | .outgoing sent => if sent then serve host rounds else return ()
    | .incoming (some message) =>
      handleAgentMessage message
      serve host rounds
    | .incoming none => serve host rounds
    | .closed => return ()

def handleSocket (host : HostId) (isControlPlane : Bool) (protocolVersion : Option ℕ)
    (rounds : ℕ) : Program Operation Unit := do
  perform .createChannel
  perform (.setControlPlane host isControlPlane)
  register host protocolVersion
  serve host rounds
  unregister host
  perform .closeReceiver

def removeHost (host : HostId) : Program Operation Unit := do
  unregister host
  perform (.setControlPlane host false)

/-- The handler of a connection, calls of `dispatch`, and the routes that remove a host, flag it or
record its device. -/
inductive Job (Operation : Type)
  | handler (host : HostId) (isControlPlane : Bool) (protocolVersion : Option ℕ) (rounds : ℕ)
  | dispatch (host : HostId) (operation : Operation)
  | removeHost (host : HostId)
  | setControlPlane (host : HostId) (flag : Bool)
  | setDockerDevice (device : Option String)

inductive Result
  | finished
  | dispatched (result : Except DispatchError CommandOutcome)

def code : Job Operation → Program Operation Result
  | .handler host flag version rounds => do
    handleSocket host flag version rounds
    return .finished
  | .dispatch host operation => do
    return .dispatched (← dispatch T host operation)
  | .removeHost host => do
    removeHost host
    return .finished
  | .setControlPlane host flag => do
    perform (.setControlPlane host flag)
    return .finished
  | .setDockerDevice device => do
    perform (.setDockerDevice device)
    return .finished

/-- The handlers and dispatch calls that run, with the registry. -/
abbrev HostPool (Operation : Type) :=
  Pool ThreadId (Job Operation) (State Operation) (Op Operation) Resp Result

/-- The runs of handlers and dispatch calls whose steps all satisfy `ok`. -/
abbrev Reaches (protection : ControlPlaneProtection)
    (ok : ThreadId → Op Operation → Choice → State Operation → Prop)
    (P : HostPool Operation) : Prop :=
  Reach (code T) exec ok (.init (.new protection)) P

end Programs

/-! ### Runs of the operation `Ping` -/

def pingTable : OperationTable Unit := ⟨fun _ => 0, fun _ => "Ping", fun _ _ => .ok ()⟩

def connect (i : ThreadId) (host : HostId) (rounds : ℕ) : List (Event ThreadId (Job Unit) Choice) :=
  [.start i (.handler host false (some 1) rounds), .run i .go, .run i .go, .run i .go, .run i .go]

def dispatchPing (i : ThreadId) (host : HostId) : List (Event ThreadId (Job Unit) Choice) :=
  [.start i (.dispatch host ()), .run i .go, .run i .go, .run i .go, .run i .go]

def pingOutcome (P : HostPool Unit) (i : ThreadId) :
    Option (HostId × Except DispatchError CommandOutcome) :=
  match P.threads i with
  | some ⟨.dispatch host _, .ret (.dispatched result)⟩ => some (host, result)
  | _ => none

theorem threads_of_pingOutcome {i : ThreadId} {P : HostPool Unit} {host : HostId}
    {result : Except DispatchError CommandOutcome} (h : pingOutcome P i = some (host, result)) :
    P.threads i = some ⟨.dispatch host (), .ret (.dispatched result)⟩ := by
  unfold pingOutcome at h
  split at h
  · rename_i hi
    cases h
    exact hi
  · simp at h

/-!
## Whether an agent supports an operation

Pages and sweeps ask `supports` ahead of a dispatch, which makes the same check for itself: both
compare the protocol that the agent reported with the one that the operation needs. They differ on
agents that reported none.
-/

inductive AgentProtocolStatus where
  | notConnected
  | unknown
  | version (v : ℕ)

variable {Operation : Type} (T : OperationTable Operation) (s : State Operation) (host : HostId)

def agentProtocolStatus : AgentProtocolStatus :=
  match s.connections host with
  | none => .notConnected
  | some connection =>
    match connection.protocolVersion with
    | none => .unknown
    | some v => .version v

def agentSupports (min : ℕ) : Bool :=
  match agentProtocolStatus s host with
  | .version v => min ≤ v
  | _ => false

variable (operation : Operation)

def supports : Bool := agentSupports s host (T.minProtocol operation)

/-- A dispatch that looks its host up in the state `s` goes on to send the operation. -/
def PassesChecks : Prop :=
  ∃ k i c answer sender, (dispatch T host operation).Residual (.call (.lookup host) k) ∧
    (exec i (.lookup host) c s).map Prod.snd = some answer ∧
    k answer = sendAndAwait host sender operation

/-- What a dispatch does with the answers of its lookup, the pending table and its request. -/
def Continues : (op : Op Operation) →
      (Resp op → Program Operation (Except DispatchError CommandOutcome)) → Prop
  | .lookup _, k => k none = .ret (.error .notConnected) ∧ ∀ sender has, k (some (sender, has)) =
      if has.getD 0 < T.minProtocol operation then
        .ret (.error (.agentTooOld (T.operationName operation) (T.minProtocol operation) has))
      else sendAndAwait host sender operation
  | .insertPending host', k => ∃ sender,
      sendAndAwait host sender operation = .call (.insertPending host') k
  | .await, k => (∀ o, k (.outcome o) = .ret (.ok o)) ∧ k .closed = .ret (.error .connectionClosed)
  | _, _ => True

private theorem sendAndAwait_calls (sender : ThreadId) (operation : Operation) :
    (sendAndAwait host sender operation).Calls (Continues T host operation) := by
  refine ⟨⟨sender, rfl⟩, fun requestId => ⟨trivial, fun sent => ?_⟩⟩
  cases sent with
  | false => exact ⟨trivial, fun _ => trivial⟩
  | true =>
    refine ⟨⟨fun _ => rfl, rfl⟩, fun awaited => ?_⟩
    cases awaited with
    | outcome | closed => trivial
    | elapsed => exact ⟨trivial, fun _ => trivial⟩

theorem dispatch_calls : (dispatch T host operation).Calls (Continues T host operation) := by
  refine Prog.Calls.bind ⟨trivial, fun own => ?_⟩ fun verdict => ?_
  · cases own with
    | false => trivial
    | true => exact ⟨trivial, fun _ => trivial⟩
  cases verdict with
  | error => trivial
  | ok =>
    refine ⟨⟨rfl, fun _ _ => rfl⟩, fun answer => ?_⟩
    cases answer with
    | none => trivial
    | some found =>
      change Prog.Calls _ (if _ then _ else _)
      split_ifs
      · trivial
      · exact sendAndAwait_calls T host found.1 operation

variable {T s host}

private theorem passesChecks_iff {operation : Operation} :
    PassesChecks T s host operation ↔
      ∃ c, s.connections host = some c ∧ T.minProtocol operation ≤ c.protocolVersion.getD 0 := by
  constructor
  · rintro ⟨_, _, _, _, _, hk, hlookup, hgo⟩
    obtain ⟨hnone, hsome⟩ := (dispatch_calls T host operation).residual hk
    rw [exec] at hlookup
    cases hc : s.connections host with
    | none =>
      rw [hc] at hlookup
      cases hlookup
      rw [hnone] at hgo
      cases hgo
    | some connection =>
      rw [hc] at hlookup
      cases hlookup
      rw [hsome] at hgo
      split_ifs at hgo with hold
      · cases hgo
      · exact ⟨connection, rfl, Nat.not_lt.1 hold⟩
  · rintro ⟨connection, hc, hnew⟩
    refine ⟨_, 0, .go, some (connection.chan, connection.protocolVersion), connection.chan,
      .inr ⟨false, .inl rfl⟩, ?_, if_neg (Nat.not_lt.2 hnew)⟩
    rw [exec, hc]
    rfl

/-- The two answers agree, unless the agent reported no protocol and the operation needs none. -/
theorem supports_iff_passesChecks_iff (T : OperationTable Operation) (s : State Operation)
    (host : HostId) (operation : Operation) :
    (supports T s host operation ↔ PassesChecks T s host operation) ↔
      ¬(T.minProtocol operation = 0 ∧ ∃ connection, s.connections host = some connection ∧
          connection.protocolVersion = none) := by
  rw [passesChecks_iff, supports, agentSupports, agentProtocolStatus]
  cases hc : s.connections host with
  | none => simp
  | some connection =>
    cases hv : connection.protocolVersion with
    | none | some => simp [hv]

/-- The agent of a host that reported no protocol. -/
def unreported : State Unit :=
  { State.new ⟨∅, none⟩ with connections := fun _ => some ⟨0, none, 1⟩ }

/-- The page shows the operation as unsupported, and the dispatch sends it. -/
theorem not_supports_of_unreported :
    supports pingTable unreported 0 () = false ∧ PassesChecks pingTable unreported 0 () :=
  ⟨rfl, _, 0, .go, some (0, none), 0, .inr ⟨false, .inl rfl⟩, rfl, rfl⟩

end Abyssal.Hosts
