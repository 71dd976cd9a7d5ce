import Abyssal.Hosts.Registry

/-!
# The audit record of an operation on a host

`execute_on_host` documents "an audit record on every attempt (success or failure)". It writes the
record of a dispatched operation after the answer, so a call whose future is dropped while it waits
leaves none.

## Main results

* `audited_iff`: which attempts leave one record.
-/

namespace Abyssal.Execution

open Resumption Abyssal.Hosts List

inductive OperationKind
  | read
  | write
  | destructive
  deriving DecidableEq

inductive HostOpKind
  | elevate
  | deescalate
  | securityScan
  | other

inductive AuditAction
  | hostElevated
  | hostElevationFailed
  | hostDeescalated
  | securityEventScanRun
  | systemCommandExecuted

inductive ExecutionError
  | timeout
  | confirmationRequired
  | forbidden
  | failed (message : String)
  | refused (message : String)

def ExecutionError.toString : ExecutionError → String
  | timeout => "operation timed out"
  | confirmationRequired => "destructive operations require explicit confirmation"
  | forbidden => "permission denied"
  | failed message => "execution failed: " ++ message
  | refused message => message

structure Names (Operation : Type) where
  label : Operation → String
  opKind : Operation → HostOpKind
  releaseForProtocol : ℕ → Option String

structure Call (Operation Permission : Type) where
  username : String
  has : Permission → Bool
  hostId : HostId
  hostLabel : String
  operation : Operation
  requiredPermission : Permission
  kind : OperationKind
  confirm : Bool
  sourceIp : Option String
  elevated : Bool

structure AuditEvent where
  action : AuditAction
  success : Bool
  actor : String
  resource : String
  detail : String
  elevated : Bool
  operation : String
  kind : OperationKind
  sourceIp : Option String

variable {Operation Permission : Type} (N : Names Operation)

def tooOldMessage (operation : String) (needed : ℕ) (has : Option ℕ) : String :=
  let release := match N.releaseForProtocol needed with
    | some release => "agent " ++ release ++ " or later"
    | none => "a newer agent"
  let has := match has with
    | some v => "protocol " ++ v.repr
    | none => "an unreported protocol (a very old build)"
  "This host's agent is too old for " ++ operation ++ ": it speaks " ++ has ++
    ", and this needs protocol " ++ needed.repr ++ " (" ++ release ++
    "). Update it with 'Update agent' on /admin/hosts (or re-deploy it), then try again. " ++
    "Nothing was sent to the host."

def action : HostOpKind → Bool → AuditAction
  | .elevate, true => .hostElevated
  | .elevate, false => .hostElevationFailed
  | .deescalate, _ => .hostDeescalated
  | .securityScan, _ => .securityEventScanRun
  | .other, _ => .systemCommandExecuted

variable (c : Call Operation Permission)

def auditHostOp (success : Bool) (detail : String) : AuditEvent where
  action := action (N.opKind c.operation) success
  success := success
  actor := c.username
  resource := c.hostLabel
  detail := detail
  elevated := c.elevated
  operation := N.label c.operation
  kind := c.kind
  sourceIp := c.sourceIp

abbrev Output := String × String × Option ℤ

def resultOf : Except DispatchError CommandOutcome → Except ExecutionError Output
  | .ok (.ok stdout stderr exitCode) => .ok (stdout, stderr, exitCode)
  | .ok (.err message) => .error (.failed message)
  | .error .notConnected => .error (.failed "host is not currently connected")
  | .error .timeout => .error .timeout
  | .error .connectionClosed => .error (.failed "host disconnected before responding")
  | .error (.refused reason) => .error (.refused reason)
  | .error (.agentTooOld operation needed has) =>
    .error (.refused (tooOldMessage N operation needed has))

/-- The operations of the registry, and the insert of an audit event. -/
abbrev Effect (Operation : Type) := Op Operation ⊕ AuditEvent

abbrev Answer : Effect Operation → Type := Sum.elim Resp fun _ => Unit

abbrev Executing (Operation : Type) := Prog (Effect Operation) (@Answer Operation)

abbrev Attempt (Operation : Type) := Executing Operation (Except ExecutionError Output)

def recorded (event : AuditEvent) (result : Except ExecutionError Output) : Attempt Operation :=
  .call (.inr event) fun _ => .ret result

def eventOf : Except ExecutionError Output → AuditEvent
  | .ok _ => auditHostOp N c true "ok"
  | .error e => auditHostOp N c false e.toString

/-- The caller may run the operation, and confirmed it if it is destructive. -/
def Call.Admitted : Prop :=
  c.has c.requiredPermission = true ∧ (c.kind = .destructive → c.confirm = true)

def executeOnHost (T : OperationTable Operation) (N : Names Operation)
    (c : Call Operation Permission) : Attempt Operation :=
  if !c.has c.requiredPermission then
    recorded (auditHostOp N c false "permission denied") (.error .forbidden)
  else if c.kind = .destructive ∧ !c.confirm then
    recorded (auditHostOp N c false "confirmation required") (.error .confirmationRequired)
  else (do
    let outcome ← (dispatch T c.hostId c.operation).lift
    recorded (eventOf N c (resultOf N outcome)) (resultOf N outcome) : Executing Operation _)

/-! ### What an attempt leaves behind -/

abbrev History (Operation : Type) := List (Σ op : Effect Operation, Answer op)

variable (l : History Operation)

def written : List AuditEvent :=
  l.filterMap fun x => x.1.getRight?

def Sent : Prop :=
  ∃ sender message, (⟨.inl (.send sender message), true⟩ : Σ op : Effect Operation, Answer op) ∈ l

def awaited : Effect Operation → Bool
  | .inl (.send _ _) => true
  | .inl .await => true
  | .inl _ => false
  | .inr _ => true

variable (q : Attempt Operation)

/-- The call was dropped at an await after its command was sent. -/
def Dropped : Prop :=
  Sent l ∧ ∃ op k, q = .call op k ∧ awaited op = true

def Ended : Prop :=
  (∃ result, q = .ret result) ∨ Dropped l q

/-- There is one record of the attempt, with its final outcome. -/
def Audited : Prop :=
  ∃ success detail, written l = [auditHostOp N c success detail] ∧
    ∀ result, q = .ret result → success = result.isOk

variable {result : Except ExecutionError Output} {l : History Operation} {event : AuditEvent}
  {q : Attempt Operation}

theorem after_recorded (h : (recorded event result).After l q) :
    l = [] ∧ q = recorded event result ∨ l = [⟨.inr event, ()⟩] ∧ q = .ret result := by
  match l, h with
  | [], h => exact .inl ⟨rfl, h⟩
  | [_], ⟨(), hx, h⟩ => exact .inr ⟨by rw [hx], h⟩
  | _ :: _ :: _, ⟨_, _, h⟩ => exact h.elim

theorem not_ret_recorded : ¬ ∃ r, (recorded event result : Attempt Operation) = .ret r := by
  rintro ⟨_, h⟩
  cases h

variable {c : Call Operation Permission} {N : Names Operation}

theorem not_audited (h : written l = []) : ¬ Audited N c l q := by
  rintro ⟨_, _, honce, -⟩
  rw [h] at honce
  cases honce

theorem not_sent_recorded (h : (recorded event result).After l q) : ¬ Sent l := by
  rcases after_recorded h with ⟨rfl, -⟩ | ⟨rfl, -⟩
  · rintro ⟨_, _, hs⟩
    cases hs
  · rintro ⟨_, _, hs⟩
    cases mem_singleton.1 hs

theorem audited_recorded_iff {detail : String} {e : ExecutionError}
    (h : (recorded (auditHostOp N c false detail) (.error e)).After l q) :
    Audited N c l q ↔ ∃ result, q = .ret result := by
  rcases after_recorded h with ⟨rfl, rfl⟩ | ⟨rfl, rfl⟩
  · exact iff_of_false (not_audited rfl) not_ret_recorded
  · refine iff_of_true ⟨false, detail, rfl, fun result hr => ?_⟩ ⟨_, rfl⟩
    cases hr
    rfl

private theorem written_lift {α : Type} {p : Program Operation α} {q : Executing Operation α}
    (h : Prog.After (p.lift : Executing Operation α) l q) : written l = [] := by
  refine filterMap_eq_nil_iff.2 fun x hx => ?_
  have := (Prog.avoids_lift p).after h x hx
  cases hop : x.1 with
  | inl => rfl
  | inr => exact absurd (by rw [hop]; rfl) this

private theorem eventOf_eq (N : Names Operation) (c : Call Operation Permission)
    (result : Except ExecutionError Output) :
    ∃ detail, eventOf N c result = auditHostOp N c result.isOk detail := by
  cases result with
  | ok | error => exact ⟨_, rfl⟩

/-- Nothing is written while the operation is dispatched; the record comes after the answer. -/
theorem audited_dispatch_iff {T : OperationTable Operation}
    (h : Prog.After ((dispatch T c.hostId c.operation).lift >>= fun outcome =>
      (recorded (eventOf N c (resultOf N outcome)) (resultOf N outcome) : Attempt Operation))
      l q) :
    Audited N c l q ↔ ∃ result, q = .ret result := by
  rcases Prog.after_bind h with ⟨op, k, hp, rfl⟩ | ⟨l₁, outcome, l₂, rfl, hp, hr⟩
  · refine iff_of_false (not_audited (written_lift hp)) ?_
    rintro ⟨result, hq⟩
    cases hq
  · have hnone := written_lift hp
    rcases after_recorded hr with ⟨rfl, rfl⟩ | ⟨rfl, rfl⟩
    · rw [append_nil]
      exact iff_of_false (not_audited hnone) not_ret_recorded
    · obtain ⟨detail, hevent⟩ := eventOf_eq N c (resultOf N outcome)
      refine iff_of_true ⟨(resultOf N outcome).isOk, detail, ?_, fun result hq => ?_⟩ ⟨_, rfl⟩
      · rw [← hevent, written, filterMap_append]
        exact congrArg (· ++ _) hnone
      · cases hq
        rfl

theorem Ended.not_dropped_iff (h : Ended l q) : ¬ Dropped l q ↔ ∃ result, q = .ret result := by
  refine ⟨h.resolve_right, ?_⟩
  rintro ⟨_, rfl⟩ ⟨-, _, _, hq, -⟩
  cases hq

/-- A command is sent only for a caller who may run it, and an attempt that ended has its one record
exactly when it was not dropped after the command was sent. -/
theorem audited_iff (T : OperationTable Operation) (N : Names Operation)
    (c : Call Operation Permission) {l : History Operation} {q : Attempt Operation}
    (h : (executeOnHost T N c).After l q) (hend : Ended l q) :
    (Sent l → c.Admitted) ∧ (Audited N c l q ↔ ¬ Dropped l q) := by
  rw [hend.not_dropped_iff]
  unfold executeOnHost at h
  split at h
  · exact ⟨fun hs => absurd hs (not_sent_recorded h), audited_recorded_iff h⟩
  · rename_i hhas
    split at h
    · exact ⟨fun hs => absurd hs (not_sent_recorded h), audited_recorded_iff h⟩
    · rename_i hconfirm
      refine ⟨fun _ => ⟨by simpa using hhas, fun hkind => ?_⟩, audited_dispatch_iff h⟩
      simpa [hkind] using hconfirm

def ping : Call Unit Unit :=
  ⟨"admin", fun _ => true, 1, "web-1", (), (), .read, false, none, false⟩

def pingNames : Names Unit := ⟨fun _ => "Ping", fun _ => .other, fun _ => none⟩

def pinged : History Unit :=
  [⟨.inl (.isControlPlane 1), false⟩, ⟨.inl (.lookup 1), some (0, none)⟩,
    ⟨.inl (.insertPending 1), (7 : RequestId)⟩, ⟨.inl (.send 0 (.command 7 ())), true⟩]

theorem sent_pinged : Sent pinged := ⟨0, .command 7 (), by simp [pinged]⟩

def answered : History Unit :=
  pinged ++ [⟨.inl .await, .outcome (.err "busy")⟩,
    ⟨.inr (auditHostOp pingNames ping false "execution failed: busy"), ()⟩]

theorem audited_iff_answered :
    Audited pingNames ping answered (.ret (.error (.failed "busy"))) := by
  have hafter : (executeOnHost pingTable pingNames ping).After answered
      (.ret (.error (.failed "busy"))) :=
    ⟨_, rfl, _, rfl, _, rfl, _, rfl, _, rfl, _, rfl, rfl⟩
  refine (audited_iff pingTable pingNames ping hafter (.inl ⟨_, rfl⟩)).2.2 ?_
  rintro ⟨-, _, _, h, -⟩
  cases h

/-- The browser disconnects while the host runs the command: there is no record of it. -/
theorem sent_and_not_audited_of_dropped :
    ∃ q, (executeOnHost pingTable pingNames ping).After pinged q ∧ Dropped pinged q ∧
      written pinged = [] ∧ ¬ Audited pingNames ping pinged q :=
  ⟨_, ⟨_, rfl, _, rfl, _, rfl, _, rfl, rfl⟩,
    ⟨sent_pinged, .inl .await, _, rfl, rfl⟩, rfl, not_audited rfl⟩

end Abyssal.Execution
