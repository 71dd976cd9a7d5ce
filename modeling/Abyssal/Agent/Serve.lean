import Abyssal.Lock.Fair
import Abyssal.Machine.Guarded
import Abyssal.Table.PartialMap

/-!
# How an agent runs commands

Operations that may run beside others are given to a task each, which waits for a read slot of its
connection; all others go through the connection's queue. A task waits for the gate of the process,
tests whether the connection was closed, runs the operation and puts the response into the queue of
the writer. The steps are what happens between two points where a task waits. `started` and
`history` are read by nobody.
-/

namespace Abyssal.Agent.Transport

open Lock List Function Table

def maxConcurrentReads : ℕ := 8

def outgoingCapacity : ℕ := 64

variable {Operation Outcome : Type}

inductive Phase (Outcome : Type)
  | queued
  | spawned
  | slotWait
  | slotHeld
  | gateWait
  | entered
  | running
  | responding (outcome : Outcome)
  | dropped
  | answered (outcome : Outcome)
  | unanswered (outcome : Outcome)
  deriving DecidableEq

structure Task (Operation Outcome : Type) where
  conn : ℕ
  requestId : ℕ
  operation : Operation
  phase : Phase Outcome
  deriving DecidableEq

/-- Messages to the control plane. A response also names the command that it responds to. -/
inductive Message (Outcome : Type)
  | pong
  | telemetry
  | unsupported (requestId : ℕ)
  | response (task requestId : ℕ) (outcome : Outcome)

def Message.responds (n : ℕ) : Message Outcome → Bool
  | .response task _ _ => task = n
  | _ => false

inductive Incoming (Operation : Type)
  | command (requestId : ℕ) (operation : Operation)
  | ping
  | unrecognized (requestId : Option ℕ)
  | other

/-- Whether the loop runs, the connection is marked as closed and the writer runs; the messages for
the writer, the commands in the queue, the one taken out last and not finished, and the read slots.
-/
structure Connection (Outcome : Type) where
  serving : Bool
  closed : Bool
  writer : Bool
  outgoing : List (Message Outcome)
  queue : List ℕ
  worker : Option ℕ
  slots : Fair ℕ
  history : List (Message Outcome)

/-- The commands, their number, the connections, the gate, and the commands that were started. -/
structure Process (Operation Outcome : Type) where
  tasks : ℕ → Option (Task Operation Outcome)
  next : ℕ
  connections : ℕ → Option (Connection Outcome)
  gate : Fair (ℕ × Bool)
  started : List ℕ

inductive Event (Operation Outcome : Type)
  | connect (c : ℕ)
  | receive (c : ℕ) (message : Incoming Operation)
  | hangUp (c : ℕ)
  | readError (c : ℕ)
  | write (c : ℕ) (sent : Bool)
  | push (c : ℕ)
  | advance (n : ℕ) (outcome : Outcome)

namespace Connection

def new : Connection Outcome := ⟨true, false, true, [], [], none, .free, []⟩

variable (conn : Connection Outcome)

def push (message : Message Outcome) : Connection Outcome :=
  { conn with outgoing := conn.outgoing ++ [message], history := conn.history ++ [message] }

/-- `Serve::send`, `none` while the queue of the writer is full. -/
def send (message : Message Outcome) : Option (Connection Outcome) :=
  if conn.writer then
    if conn.outgoing.length < outgoingCapacity then some (conn.push message) else none
  else some { conn with closed := true }

def checked : Connection Outcome := if conn.closed then { conn with serving := false } else conn

def write (sent : Bool) : Connection Outcome :=
  match conn.writer, conn.outgoing with
  | true, _ :: rest =>
    if sent then { conn with outgoing := rest }
    else { conn with closed := true, writer := false, outgoing := [] }
  | _, _ => conn

def release (n : ℕ) (alone : Bool) : Connection Outcome :=
  if alone then { conn with worker := none } else { conn with slots := conn.slots.release n }

def responses (n : ℕ) : List (Message Outcome) :=
  conn.history.filter (·.responds n)

end Connection

variable (runsConcurrently : Operation → Bool)

def Task.alone (t : Task Operation Outcome) : Bool := !runsConcurrently t.operation

namespace Process

variable (s : Process Operation Outcome)

def setConnection (c : ℕ) (conn : Connection Outcome) : Process Operation Outcome :=
  { s with connections := update s.connections c (some conn) }

def addTask (t : Task Operation Outcome) : Process Operation Outcome :=
  { s with tasks := update s.tasks s.next (some t), next := s.next + 1 }

def move (n : ℕ) (t : Task Operation Outcome) (phase : Phase Outcome) (conn : Connection Outcome)
    (gate : Fair (ℕ × Bool)) : Process Operation Outcome :=
  { s with
    tasks := update s.tasks n (some { t with phase := phase })
    connections := update s.connections t.conn (some conn)
    gate := gate }

def receive (c : ℕ) (conn : Connection Outcome) : Incoming Operation → Process Operation Outcome
  | .command requestId operation =>
    if runsConcurrently operation then
      (s.addTask ⟨c, requestId, operation, .spawned⟩).setConnection c conn.checked
    else
      (s.addTask ⟨c, requestId, operation, .queued⟩).setConnection c
        { conn with queue := conn.queue ++ [s.next] }.checked
  | .ping =>
    match conn.send .pong with
    | some conn => s.setConnection c conn.checked
    | none => s
  | .unrecognized (some requestId) =>
    match conn.send (.unsupported requestId) with
    | some conn => s.setConnection c conn
    | none => s
  | .unrecognized none => s
  | .other => s.setConnection c conn.checked

/-- The next step of the task of command `n`, if it need not wait; `outcome` is what its run comes
to. -/
def advance (n : ℕ) (t : Task Operation Outcome) (conn : Connection Outcome) (outcome : Outcome) :
    Process Operation Outcome :=
  let alone := t.alone runsConcurrently
  match t.phase with
  | .queued =>
    match conn.worker, conn.queue with
    | none, m :: rest =>
      if m = n then
        if conn.closed then s.move n t .dropped { conn with queue := rest } s.gate
        else
          s.move n t .gateWait { conn with queue := rest, worker := some n }
            (s.gate.ask (n, alone))
      else s
    | _, _ => s
  | .spawned => s.move n t .slotWait { conn with slots := conn.slots.ask n } s.gate
  | .slotWait =>
    match conn.slots.enter (atMost maxConcurrentReads) n with
    | some slots => s.move n t .slotHeld { conn with slots := slots } s.gate
    | none => s
  | .slotHeld => s.move n t .gateWait conn (s.gate.ask (n, alone))
  | .gateWait =>
    match s.gate.enter (readersWriter Prod.snd) (n, alone) with
    | some gate => s.move n t .entered conn gate
    | none => s
  | .entered =>
    if conn.closed then s.move n t .dropped (conn.release n alone) (s.gate.release (n, alone))
    else { s.move n t .running conn s.gate with started := s.started ++ [n] }
  | .running => s.move n t (.responding outcome) conn s.gate
  | .responding outcome =>
    if conn.writer then
      if conn.outgoing.length < outgoingCapacity then
        s.move n t (.answered outcome)
          ((conn.push (.response n t.requestId outcome)).release n alone)
          (s.gate.release (n, alone))
      else s
    else s.move n t (.unanswered outcome) (conn.release n alone) (s.gate.release (n, alone))
  | .dropped => s
  | .answered _ => s
  | .unanswered _ => s

def initial : Process Operation Outcome := ⟨fun _ => none, 0, fun _ => none, .free, []⟩

end Process

def step (s : Process Operation Outcome) : Event Operation Outcome → Process Operation Outcome
  | .connect c =>
    match s.connections c with
    | none => s.setConnection c .new
    | some _ => s
  | .receive c message =>
    match s.connections c with
    | some conn => if conn.serving then s.receive runsConcurrently c conn message else s
    | none => s
  | .hangUp c =>
    match s.connections c with
    | some conn =>
      if conn.serving then s.setConnection c { conn with serving := false, closed := true } else s
    | none => s
  | .readError c =>
    match s.connections c with
    | some conn => if conn.serving then s.setConnection c { conn with serving := false } else s
    | none => s
  | .write c sent =>
    match s.connections c with
    | some conn => s.setConnection c (conn.write sent)
    | none => s
  | .push c =>
    match s.connections c with
    | some conn =>
      if conn.writer ∧ conn.outgoing.length < outgoingCapacity then
        s.setConnection c (conn.push .telemetry)
      else s
    | none => s
  | .advance n outcome =>
    match s.tasks n with
    | some t =>
      match s.connections t.conn with
      | some conn => s.advance runsConcurrently n t conn outcome
      | none => s
    | none => s

abbrev Reaches (s s' : Process Operation Outcome) : Prop :=
  Machine.Reached (step runsConcurrently) (fun _ _ => True) s s'

/-! ### What a step changes -/

/-- A connection stays closed, is not served again, and when its loop ends it is closed, or reading
has failed. -/
structure Fades (e : Event Operation Outcome) (c : ℕ) (conn conn' : Connection Outcome) : Prop where
  closed : conn.closed = true → conn'.closed = true
  serving : conn'.serving = true → conn.serving = true
  ended : conn'.serving = false → conn.serving = false ∨ conn'.closed = true ∨ e = .readError c

/-- The loop, the writer or the pushing of telemetry changed a connection. -/
structure Quiet (e : Event Operation Outcome) (c : ℕ) (conn conn' : Connection Outcome) : Prop
    extends Fades e c conn conn' where
  queue : conn'.queue = conn.queue
  worker : conn'.worker = conn.worker
  slots : conn'.slots = conn.slots
  responses : ∀ n, conn'.responses n = conn.responses n
  writer : conn'.writer = true → conn.writer = true

/-- A step of a task: its phase, its connection and the gate before and after, and whether it starts
the operation. -/
inductive Turn (n : ℕ) (t : Task Operation Outcome) (conn : Connection Outcome)
    (gate : Fair (ℕ × Bool)) :
    Phase Outcome → Connection Outcome → Fair (ℕ × Bool) → Bool → Prop
  | discard (rest : List ℕ) (hphase : t.phase = .queued) (hworker : conn.worker = none)
      (hqueue : conn.queue = n :: rest) (hclosed : conn.closed = true) :
      Turn n t conn gate .dropped { conn with queue := rest } gate false
  | take (rest : List ℕ) (hphase : t.phase = .queued) (hworker : conn.worker = none)
      (hqueue : conn.queue = n :: rest) :
      Turn n t conn gate .gateWait { conn with queue := rest, worker := some n }
        (gate.ask (n, t.alone runsConcurrently)) false
  | askSlot (hphase : t.phase = .spawned) :
      Turn n t conn gate .slotWait { conn with slots := conn.slots.ask n } gate false
  | enterSlot (slots : Fair ℕ) (hphase : t.phase = .slotWait)
      (henter : conn.slots.enter (atMost maxConcurrentReads) n = some slots) :
      Turn n t conn gate .slotHeld { conn with slots := slots } gate false
  | askGate (hphase : t.phase = .slotHeld) :
      Turn n t conn gate .gateWait conn (gate.ask (n, t.alone runsConcurrently)) false
  | enterGate (gate' : Fair (ℕ × Bool)) (hphase : t.phase = .gateWait)
      (henter : gate.enter (readersWriter Prod.snd) (n, t.alone runsConcurrently) = some gate') :
      Turn n t conn gate .entered conn gate' false
  | drop (hphase : t.phase = .entered) (hclosed : conn.closed = true) :
      Turn n t conn gate .dropped (conn.release n (t.alone runsConcurrently))
        (gate.release (n, t.alone runsConcurrently)) false
  | start (hphase : t.phase = .entered) (hopen : conn.closed = false) :
      Turn n t conn gate .running conn gate true
  | finish (outcome : Outcome) (hphase : t.phase = .running) :
      Turn n t conn gate (.responding outcome) conn gate false
  | answer (outcome : Outcome) (hphase : t.phase = .responding outcome) :
      Turn n t conn gate (.answered outcome)
        ((conn.push (.response n t.requestId outcome)).release n (t.alone runsConcurrently))
        (gate.release (n, t.alone runsConcurrently)) false
  | lose (outcome : Outcome) (hphase : t.phase = .responding outcome)
      (hwriter : conn.writer = false) :
      Turn n t conn gate (.unanswered outcome) (conn.release n (t.alone runsConcurrently))
        (gate.release (n, t.alone runsConcurrently)) false

inductive Effect (e : Event Operation Outcome) (s : Process Operation Outcome) :
    Process Operation Outcome → Prop
  | same : Effect e s s
  | connect (c : ℕ) (hc : s.connections c = none) : Effect e s (s.setConnection c .new)
  | quiet (c : ℕ) (conn conn' : Connection Outcome) (hc : s.connections c = some conn)
      (h : Quiet e c conn conn') : Effect e s (s.setConnection c conn')
  | spawn (c : ℕ) (conn conn' : Connection Outcome) (t : Task Operation Outcome)
      (hc : s.connections c = some conn) (h : Quiet e c conn conn') (hserving : conn.serving = true)
      (ht : t.conn = c) (halone : t.alone runsConcurrently = false) (hphase : t.phase = .spawned) :
      Effect e s ((s.addTask t).setConnection c conn')
  | enqueue (c : ℕ) (conn conn' : Connection Outcome) (t : Task Operation Outcome)
      (hc : s.connections c = some conn)
      (h : Quiet e c { conn with queue := conn.queue ++ [s.next] } conn')
      (hserving : conn.serving = true) (ht : t.conn = c) (halone : t.alone runsConcurrently = true)
      (hphase : t.phase = .queued) : Effect e s ((s.addTask t).setConnection c conn')
  | turn (n : ℕ) (t : Task Operation Outcome) (conn conn' : Connection Outcome)
      (phase : Phase Outcome) (gate : Fair (ℕ × Bool)) (starts : Bool) (ht : s.tasks n = some t)
      (hc : s.connections t.conn = some conn)
      (h : Turn runsConcurrently n t conn s.gate phase conn' gate starts) :
      Effect e s { s.move n t phase conn' gate with
        started := if starts then s.started ++ [n] else s.started }

variable {runsConcurrently} {e : Event Operation Outcome} {c : ℕ} {conn conn' : Connection Outcome}
  {s : Process Operation Outcome}

theorem responses_push (message : Message Outcome) (n : ℕ) :
    (conn.push message).responses n =
      conn.responses n ++ if message.responds n = true then [message] else [] := by
  rw [Connection.responses, Connection.push, filter_append]
  congr 1
  split_ifs with hmessage
  · exact filter_cons_of_pos hmessage
  · exact filter_cons_of_neg hmessage

theorem Quiet.refl (e : Event Operation Outcome) (c : ℕ) (conn : Connection Outcome) :
    Quiet e c conn conn :=
  ⟨⟨id, id, .inl⟩, rfl, rfl, rfl, fun _ => rfl, id⟩

theorem quiet_push {message : Message Outcome} (hmessage : ∀ n, message.responds n = false) :
    Quiet e c conn (conn.push message) := by
  refine ⟨⟨id, id, .inl⟩, rfl, rfl, rfl, fun n => ?_, id⟩
  rw [responses_push, hmessage n, if_neg Bool.false_ne_true, append_nil]

theorem Quiet.checked (h : Quiet e c conn conn') : Quiet e c conn conn'.checked := by
  rw [Connection.checked]
  split_ifs with hclosed
  · exact { h with
      closed := fun _ => hclosed, serving := nofun, ended := fun _ => .inr (.inl hclosed) }
  · exact h

private theorem quiet_send {message : Message Outcome} (hmessage : ∀ n, message.responds n = false)
    (h : conn.send message = some conn') : Quiet e c conn conn' := by
  unfold Connection.send at h
  split_ifs at h with hwriter
  · rw [← Option.some.inj h]
    exact quiet_push hmessage
  · rw [← Option.some.inj h]
    exact ⟨⟨fun _ => rfl, id, .inl⟩, rfl, rfl, rfl, fun _ => rfl, id⟩

theorem quiet_write (sent : Bool) : Quiet e c conn (conn.write sent) := by
  unfold Connection.write
  split
  · split_ifs
    · exact ⟨⟨id, id, .inl⟩, rfl, rfl, rfl, fun _ => rfl, id⟩
    · exact ⟨⟨fun _ => rfl, id, .inl⟩, rfl, rfl, rfl, fun _ => rfl, nofun⟩
  · exact .refl e c conn

theorem effect_receive (hc : s.connections c = some conn) (hserving : conn.serving)
    (message : Incoming Operation) :
    Effect runsConcurrently e s (s.receive runsConcurrently c conn message) := by
  unfold Process.receive
  cases message with
  | command _ operation =>
    by_cases hconcurrent : runsConcurrently operation
    · simp only [hconcurrent, if_true]
      refine .spawn c conn _ _ hc (Quiet.refl e c conn).checked hserving rfl ?_ rfl
      simp [Task.alone, hconcurrent]
    · simp only [hconcurrent]
      refine .enqueue c conn _ _ hc (Quiet.refl e c _).checked hserving rfl ?_ rfl
      simp [Task.alone, hconcurrent]
  | ping =>
    simp only
    split
    · rename_i conn' hsend
      exact .quiet c conn _ hc (quiet_send (fun _ => rfl) hsend).checked
    · exact .same
  | unrecognized requestId =>
    cases requestId with
    | none => exact .same
    | some =>
      simp only
      split
      · rename_i conn' hsend
        exact .quiet c conn _ hc (quiet_send (fun _ => rfl) hsend)
      · exact .same
  | other => exact .quiet c conn _ hc (Quiet.refl e c conn).checked

private theorem effect_advance {n : ℕ} {t : Task Operation Outcome} (ht : s.tasks n = some t)
    (hc : s.connections t.conn = some conn) (outcome : Outcome) :
    Effect runsConcurrently e s (s.advance runsConcurrently n t conn outcome) := by
  have hturn : ∀ {phase conn' gate starts s'},
      Turn runsConcurrently n t conn s.gate phase conn' gate starts →
      s' = { s.move n t phase conn' gate with
        started := if starts then s.started ++ [n] else s.started } →
      Effect runsConcurrently e s s' := by
    rintro phase conn' gate starts s' h rfl
    exact .turn n t conn conn' phase gate starts ht hc h
  unfold Process.advance
  extract_lets alone
  split
  · rename_i hphase
    split
    · rename_i m rest hworker hqueue
      by_cases hm : m = n
      · subst hm
        rw [if_pos rfl]
        split_ifs with hclosed
        · exact hturn (.discard rest hphase hworker hqueue hclosed) rfl
        · exact hturn (.take rest hphase hworker hqueue) rfl
      · rw [if_neg hm]
        exact .same
    · exact .same
  · rename_i hphase
    exact hturn (.askSlot hphase) rfl
  · rename_i hphase
    split
    · rename_i slots henter
      exact hturn (.enterSlot slots hphase henter) rfl
    · exact .same
  · rename_i hphase
    exact hturn (.askGate hphase) rfl
  · rename_i hphase
    split
    · rename_i gate' henter
      exact hturn (.enterGate gate' hphase henter) rfl
    · exact .same
  · rename_i hphase
    split_ifs with hclosed
    · exact hturn (.drop hphase hclosed) rfl
    · exact hturn (.start hphase (Bool.not_eq_true _ ▸ hclosed)) rfl
  · rename_i hphase
    exact hturn (.finish outcome hphase) rfl
  · rename_i outcome hphase
    split_ifs with hwriter
    · exact hturn (.answer outcome hphase) rfl
    · exact .same
    · exact hturn (.lose outcome hphase (Bool.not_eq_true _ ▸ hwriter)) rfl
  · exact .same
  · exact .same
  · exact .same

theorem effect_step (s : Process Operation Outcome) (e : Event Operation Outcome) :
    Effect runsConcurrently e s (step runsConcurrently s e) := by
  cases e with
  | connect c =>
    rw [step]
    split
    · rename_i hc
      exact .connect c hc
    · exact .same
  | receive c message =>
    rw [step]
    split
    · rename_i conn hc
      split_ifs with hserving
      · exact effect_receive hc hserving message
      · exact .same
    · exact .same
  | hangUp c =>
    rw [step]
    split
    · rename_i conn hc
      split_ifs
      · exact .quiet c conn _ hc ⟨⟨fun _ => rfl, nofun, fun _ => .inr (.inl rfl)⟩,
          rfl, rfl, rfl, fun _ => rfl, id⟩
      · exact .same
    · exact .same
  | readError c =>
    rw [step]
    split
    · rename_i conn hc
      split_ifs
      · exact .quiet c conn _ hc ⟨⟨id, nofun, fun _ => .inr (.inr rfl)⟩,
          rfl, rfl, rfl, fun _ => rfl, id⟩
      · exact .same
    · exact .same
  | write c sent =>
    rw [step]
    split
    · rename_i conn hc
      exact .quiet c conn _ hc (quiet_write sent)
    · exact .same
  | push c =>
    rw [step]
    split
    · rename_i conn hc
      split_ifs
      · exact .quiet c conn _ hc (quiet_push fun _ => rfl)
      · exact .same
    · exact .same
  | advance n outcome =>
    rw [step]
    split
    · rename_i t ht
      split
      · rename_i conn hc
        exact effect_advance ht hc outcome
      · exact .same
    · exact .same

/-! ### Numbers of commands -/

/-- Commands are numbered as they arrive, on connections that were made. -/
structure Numbered (s : Process Operation Outcome) : Prop where
  lt_next : ∀ n t, s.tasks n = some t → n < s.next
  started : ∀ n ∈ s.started, ∃ t, s.tasks n = some t

theorem numbered_initial : Numbered (.initial : Process Operation Outcome) where
  lt_next _ t h := absurd h.symm (Option.some_ne_none t)
  started _ h := nomatch h

variable {s' : Process Operation Outcome} {n : ℕ} {t : Task Operation Outcome}

theorem Numbered.next_eq_none (h : Numbered s) : s.tasks s.next = none := by
  cases ht : s.tasks s.next with
  | none => rfl
  | some t => exact absurd (h.lt_next s.next t ht) (Nat.lt_irrefl _)

theorem Effect.tasks_of_some (he : Effect runsConcurrently e s s') (hs : Numbered s)
    (h : s.tasks n = some t) : ∃ phase, s'.tasks n = some { t with phase := phase } := by
  cases he with
  | same | connect | quiet => exact ⟨t.phase, h⟩
  | spawn | enqueue =>
    exact ⟨t.phase, update_of_eq_some hs.next_eq_none h _⟩
  | turn m _ _ _ phase _ _ ht =>
    by_cases hm : n = m
    · subst hm
      rw [h] at ht
      cases ht
      exact ⟨phase, update_eq_some.2 (.inl ⟨rfl, rfl⟩)⟩
    · exact ⟨t.phase, update_eq_some.2 (.inr ⟨hm, h⟩)⟩

theorem Effect.some_of_tasks (he : Effect runsConcurrently e s s') (h : s'.tasks n = some t) :
    (∃ phase, s.tasks n = some { t with phase := phase }) ∨ n = s.next ∧ s'.next = s.next + 1 ∧
        ∃ conn, s.connections t.conn = some conn ∧ conn.serving := by
  cases he with
  | same | connect | quiet => exact .inl ⟨t.phase, h⟩
  | spawn _ conn _ _ hc _ hserving ht | enqueue _ conn _ _ hc _ hserving ht =>
    rcases update_eq_some.1 h with ⟨rfl, rfl⟩ | ⟨-, h⟩
    · exact .inr ⟨rfl, rfl, conn, ht ▸ hc, hserving⟩
    · exact .inl ⟨t.phase, h⟩
  | turn _ t' _ _ _ _ _ ht =>
    rcases update_eq_some.1 h with ⟨rfl, rfl⟩ | ⟨-, h⟩
    · exact .inl ⟨t'.phase, ht⟩
    · exact .inl ⟨t.phase, h⟩

theorem Effect.next_le (he : Effect runsConcurrently e s s') : s.next ≤ s'.next := by
  cases he with
  | spawn | enqueue => exact Nat.le_succ _
  | _ => exact Nat.le_refl _

theorem Effect.mem_started (he : Effect runsConcurrently e s s') (h : n ∈ s'.started) :
    n ∈ s.started ∨ ∃ t conn, s.tasks n = some t ∧ s.connections t.conn = some conn ∧
      t.phase = .entered ∧ conn.closed = false := by
  cases he with
  | turn _ t conn _ _ _ _ ht hc hturn =>
    cases hturn with
    | start hphase hopen =>
      rcases mem_append.1 h with h | h
      · exact .inl h
      · obtain rfl := mem_singleton.1 h
        exact .inr ⟨t, conn, ht, hc, hphase, hopen⟩
    | _ => exact .inl h
  | _ => exact .inl h

theorem Numbered.step (h : Numbered s) (he : Effect runsConcurrently e s s') : Numbered s' where
  lt_next n t ht := by
    rcases he.some_of_tasks ht with ⟨phase, ht⟩ | ⟨rfl, hnext, -⟩
    · exact Nat.lt_of_lt_of_le (h.lt_next n _ ht) he.next_le
    · rw [hnext]
      exact Nat.lt_succ_self _
  started n hn := by
    obtain ⟨t, ht⟩ : ∃ t, s.tasks n = some t := by
      rcases he.mem_started hn with hn | ⟨t, conn, ht, -⟩
      · exact h.started n hn
      · exact ⟨t, ht⟩
    obtain ⟨_, ht'⟩ := he.tasks_of_some h ht
    exact ⟨_, ht'⟩

/-! ### Runs with two operations

`false` is an operation that has to run alone, and `true` one that need not. -/

def after (es : List (Event Bool Unit)) : Process Bool Unit := es.foldl (step id) .initial

theorem reaches_after (es es' : List (Event Bool Unit)) :
    Reaches id (after es) (after (es ++ es')) := by
  rw [after, after, foldl_append]
  exact Machine.reached_foldl (fun _ _ _ => trivial) _

end Abyssal.Agent.Transport
