import Abyssal.Check.Ensure
import Abyssal.Text.Basic

/-!
# Validation of a storage connection

A run connects to the storage, lists its base path, asks for its attributes and, where the mode asks
for it, writes a scratch file, reads it back and removes it. At the end it stores, for each
capability, whether it was proven. A run that fails to connect or to list ends before anything is
stored. How the calls end is an argument, `Behaviour` and `Database`.

## Main results

* `sound_iff_conclusive`: when the stored capabilities are those that the run proves.
* `not_sound_of_unreachable_and_of_corrupting`: runs after which they are not.
-/

namespace Abyssal.Sepulchre

open Text List Prod

inductive Capability where
  | read
  | list
  | write
  | delete
  deriving DecidableEq

def Capability.all : List Capability := [.read, .list, .write, .delete]

inductive ValidationMode where
  | readOnly
  | readWrite
  deriving DecidableEq

inductive ValidationStatus where
  | ok
  | failed
  | skipped
  deriving DecidableEq

inductive ErrorKind where
  | unreachable
  | timeout
  | dnsFailure
  | authFailed
  | hostKeyMismatch
  | permissionDenied
  | notFound
  | readOnly
  | protocolUnsupported
  | methodUnavailable
  | pathNotAllowed
  | unknown
  deriving DecidableEq

inductive BackendCall where
  | buildBackend
  | list
  | stat
  | ensureDir
  | openWrite
  | writeAll
  | shutdown
  | openRead
  | readToEnd
  | delete
  | freeSpace
  deriving DecidableEq

def BackendCall.exercises : BackendCall → Option Capability
  | .buildBackend => none
  | .list => some .list
  | .stat => some .read
  | .ensureDir => some .write
  | .openWrite => some .write
  | .writeAll => some .write
  | .shutdown => some .write
  | .openRead => some .read
  | .readToEnd => some .read
  | .delete => some .delete
  | .freeSpace => none

structure CheckResult where
  check : String
  status : ValidationStatus
  errorKind : Option ErrorKind
  message : Text
  calls : List BackendCall

/-- A check exercises a capability if one of its calls does. -/
def CheckResult.Exercises (r : CheckResult) (c : Capability) : Prop :=
  ∃ call ∈ r.calls, call.exercises = some c

structure Library (δ : Type*) where
  sha256 : List UInt8 → δ
  toLowercase : Text → Text

variable {δ : Type*} (l : Library δ)

/-- `error_kind_for`: by the first family of words that the message contains. -/
def Library.errorKindFor (message : Text) : ErrorKind :=
  let lower := l.toLowercase message
  let contains := fun (word : String) => (splitAtText word.toList lower).isSome
  if contains "host_key_mismatch" then .hostKeyMismatch
  else if contains "auth_failed" || contains "authentication" ||
      contains "nt_status_logon_failure" || contains "nt_status_password_expired" ||
      contains "nt_status_account_locked_out" || contains "nt_status_account_disabled" then
    .authFailed
  else if contains "timed out" || contains "timeout" || contains "nt_status_io_timeout" then
    .timeout
  else if contains "not_found" || contains "no such file" ||
      contains "nt_status_bad_network_name" || contains "nt_status_object_name_not_found" then
    .notFound
  else if contains "permission" || contains "denied" || contains "nt_status_access_denied" then
    .permissionDenied
  else if contains "path not allowed" || contains "path_not_allowed" then .pathNotAllowed
  else if contains "connection failed" || contains "unreachable" ||
      contains "nt_status_connection_refused" || contains "nt_status_host_unreachable" then
    .unreachable
  else .unknown

/-- `Recorder::ok`. -/
def recordOk (check message : String) (calls : List BackendCall) : CheckResult :=
  ⟨check, .ok, none, message.toList, calls⟩

/-- `Recorder::fail`. -/
def Library.recordFail (check : String) (message : Text) (calls : List BackendCall) : CheckResult :=
  ⟨check, .failed, some (l.errorKindFor message), message, calls⟩

/-- `Recorder::skip`. -/
def recordSkip (check : String) (message : Text) (calls : List BackendCall) : CheckResult :=
  ⟨check, .skipped, none, message, calls⟩

/-- How a call of the backend ends: with a value or the text of an error. -/
abbrev Ends (α : Type) := Except Text α

structure Behaviour where
  connect : Ends Unit
  /-- the number of entries -/
  list : Ends ℕ
  stat : Ends Unit
  /-- `possible_capabilities` -/
  possible : Capability → Bool
  /-- the random text of the scratch file -/
  payload : List UInt8
  ensureDir : Ends Unit
  openWrite : Ends Unit
  writeAll : Ends Unit
  shutdown : Ends Unit
  openRead : Ends Unit
  /-- what is read back -/
  readToEnd : Ends (List UInt8)
  delete : Ends Unit
  freeSpace : Ends (Option ℕ)

/-- Calls one after the other until one fails: how they end, and which were made. -/
def inTurn : List (BackendCall × Ends Unit) → Ends Unit × List BackendCall
  | [] => (.ok (), [])
  | (call, .error e) :: _ => (.error e, [call])
  | (call, .ok _) :: rest => ((inTurn rest).1, call :: (inTurn rest).2)

def Behaviour.writeResult (b : Behaviour) : Ends Unit × List BackendCall :=
  inTurn [(.ensureDir, b.ensureDir), (.openWrite, b.openWrite), (.writeAll, b.writeAll),
    (.shutdown, b.shutdown)]

def Behaviour.readResult (b : Behaviour) : Ends (List UInt8) × List BackendCall :=
  match b.openRead with
  | .error e => (.error e, [.openRead])
  | .ok () => (b.readToEnd, [.openRead, .readToEnd])

/-- The check that was made of the scratch file, and the capabilities with those the test adds. -/
structure TestResult where
  checks : List CheckResult
  verified : Capability → Bool

def insertCapability (c : Capability) (verified : Capability → Bool) : Capability → Bool :=
  fun other => other = c || verified other

variable [DecidableEq δ]

/-- The second half of `run_read_write_test`: what was read back, compared by its hash. -/
def Library.readBackCheck (b : Behaviour) (verified : Capability → Bool) :
    CheckResult × (Capability → Bool) :=
  let calls := b.writeResult.2 ++ b.readResult.2
  match b.readResult.1 with
  | .ok readBack =>
    if l.sha256 readBack ≠ l.sha256 b.payload then
      (l.recordFail "read_write_test" "read-back checksum did not match what was written"
        calls, verified)
    else
      (recordOk "read_write_test" "wrote, read back, and checksum-verified a scratch file" calls,
        insertCapability .read verified)
  | .error e =>
    (l.recordFail "read_write_test" ("read-back failed: " ++ e) calls, verified)

/-- The scratch file is removed before what was read is looked at. -/
def Library.runReadWriteTest (b : Behaviour) (verified : Capability → Bool) : TestResult :=
  match b.writeResult.1 with
  | .error e =>
    -- the file may not exist at all; the result of its removal is ignored
    ⟨[l.recordFail "read_write_test" ("write failed: " ++ e) b.writeResult.2], verified⟩
  | .ok () =>
    let (tested, verified) := l.readBackCheck b (insertCapability .write verified)
    match b.delete with
    | .ok () => ⟨[tested], insertCapability .delete verified⟩
    | .error _ =>
      ⟨[tested, ⟨"read_write_test_cleanup", .failed, some .unknown,
        "could not remove the scratch file used for this test -- it may need manual cleanup",
        [.delete]⟩], verified⟩

/-- Check 6, the read permission: the check, and whether the base path can be read. -/
def Library.readPermission (b : Behaviour) : CheckResult × Bool :=
  match b.stat with
  | .ok () => (recordOk "read_permission" "base path is readable" [.stat], true)
  | .error e => (l.recordFail "read_permission" e [.stat], false)

variable (mode : ValidationMode)

/-- Check 7, the read/write test, in the mode that asks for it, unless a check has failed. -/
def Library.testStage (b : Behaviour) (canRead : Bool)
    (verified : Capability → Bool) : TestResult :=
  if mode = .readWrite ∧ canRead then
    if ¬ b.possible .write then
      ⟨[recordSkip "read_write_test"
        "this backend/config cannot write (e.g. a read-only SMB share) -- skipped" []],
        verified⟩
    else l.runReadWriteTest b verified
  else if mode = .readOnly then
    ⟨[recordSkip "read_write_test"
      "read-only validation mode -- write/delete were not tested" []], verified⟩
  else ⟨[], verified⟩

def spaceCheck (b : Behaviour) : CheckResult :=
  match b.freeSpace with
  | .ok (some bytes) =>
    recordOk "free_space" (toString bytes ++ " bytes free (best effort)") [.freeSpace]
  | .ok none =>
    recordSkip "free_space" "this protocol/server doesn't expose free space" [.freeSpace]
  | .error e => recordSkip "free_space" ("could not determine: " ++ e) [.freeSpace]

/-- The checks of a run, and the capabilities it has proven unless it ended early. -/
structure Findings where
  checks : List CheckResult
  verified : Option (Capability → Bool)

/-- The checks of `validate`, in their order. -/
def Library.checksOf (b : Behaviour) : Findings :=
  match b.connect with
  | .error e =>
    ⟨[l.recordFail "connect" ("unable to establish a usable connection: " ++ e)
      [.buildBackend]], none⟩
  | .ok () =>
    let connected := recordOk "connect"
      "connected, authenticated, and (for SFTP) host key verified" [.buildBackend]
    match b.list with
    | .error e =>
      ⟨[connected, l.recordFail "list" ("could not list base path: " ++ e) [.list]], none⟩
    | .ok entries =>
      let listed := recordOk "list" ("listed " ++ toString entries ++
        " entry(ies) at the connection's base path") [.list]
      let (permitted, canRead) := l.readPermission b
      let tested := l.testStage mode b canRead fun c => canRead && (c = .read || c = .list)
      ⟨[connected, listed, permitted] ++ tested.checks ++ [spaceCheck b], some tested.verified⟩

structure Database where
  start : Ends Unit
  setVerifiedCapability : Capability → Ends Unit
  finish : Ends Unit
  recordValidationSummary : Ends Unit

/-- The loop that stores, for each capability, whether it was proven. -/
def persist (d : Database) (verified : Capability → Bool) :
    List Capability → (Capability → Bool) → Ends Unit × (Capability → Bool)
  | [], stored => (.ok (), stored)
  | c :: rest, stored =>
    match d.setVerifiedCapability c with
    | .error e => (.error e, stored)
    | .ok () => persist d verified rest (Function.update stored c (verified c))

def overall (checks : List CheckResult) : ValidationStatus :=
  if checks.any fun r => r.status = .failed then .failed else .ok

/-- `finish`: the run's checks and its overall status, once both are stored. -/
def finish (d : Database) (checks : List CheckResult) :
    Ends (List CheckResult × ValidationStatus) :=
  d.finish.bind fun _ => d.recordValidationSummary.bind fun _ => .ok (checks, overall checks)

/-- `validate`: the finished run, and the stored capabilities afterwards. -/
def Library.validate (b : Behaviour) (d : Database) (stored : Capability → Bool) :
    Ends (List CheckResult × ValidationStatus) × (Capability → Bool) :=
  match d.start with
  | .error e => (.error e, stored)
  | .ok () =>
    let findings := l.checksOf mode b
    match findings.verified with
    | none => (finish d findings.checks, stored)
    | some verified =>
      match persist d verified Capability.all stored with
      | (.error e, stored) => (.error e, stored)
      | (.ok (), stored) => (finish d findings.checks, stored)

/-! ### What a run proves -/

def Behaviour.Lists (b : Behaviour) : Prop := b.connect = .ok () ∧ ∃ entries, b.list = .ok entries

def Behaviour.Reads (b : Behaviour) : Prop := b.Lists ∧ b.stat = .ok ()

/-- It gets to the read/write test and writes the scratch file. -/
def Behaviour.Writes (b : Behaviour) : Prop :=
  b.Reads ∧ mode = .readWrite ∧ b.possible .write = true ∧ b.writeResult.1 = .ok ()

/-- To list by the listing of the base path, to read by its read permission, to write and to delete
by the scratch file. -/
def Behaviour.Proves (b : Behaviour) : Capability → Prop
  | .read => b.Reads
  | .list => b.Lists
  | .write => b.Writes mode
  | .delete => b.Writes mode ∧ b.delete = .ok ()

variable {b : Behaviour} {mode : ValidationMode} {c : Capability}

theorem Behaviour.Proves.lists (h : b.Proves mode c) : b.Lists := by
  cases c with
  | read => exact h.1
  | list => exact h
  | write => exact h.1.1
  | delete => exact h.1.1.1

/-- What was read back is what was written, as far as the hash tells. -/
def Library.ReadsBack (b : Behaviour) : Prop :=
  ∃ bytes, b.readResult.1 = .ok bytes ∧ l.sha256 bytes = l.sha256 b.payload

/-- A check that exercises the capability failed. -/
def Refutes (checks : List CheckResult) (c : Capability) : Prop :=
  ∃ r ∈ checks, r.status = .failed ∧ r.Exercises c

variable (mode)

/-- The stored capabilities are those that the run proves, and no failed check of it speaks against
them. -/
def Sound (b : Behaviour) (checks : List CheckResult) (stored : Capability → Bool) : Prop :=
  (∀ c, stored c = true ↔ b.Proves mode c) ∧
    ∀ c, c = .read ∨ c = .write → stored c = true → ¬ Refutes checks c

/-- The base path is listed and its attributes are read, or it is not listed and nothing was stored
before; and a scratch file is read back as it was written. -/
def Library.Conclusive (b : Behaviour) (stored : Capability → Bool) : Prop :=
  (b.Reads ∨ ¬ b.Lists ∧ ∀ c, stored c = false) ∧ (b.Writes mode → l.ReadsBack b)

@[simp] theorem refutes_nil (c : Capability) : ¬ Refutes [] c := by
  rintro ⟨_, hmem, -⟩
  cases hmem

@[simp] theorem refutes_cons (r : CheckResult) (checks : List CheckResult) (c : Capability) :
    Refutes (r :: checks) c ↔ (r.status = .failed ∧ r.Exercises c) ∨ Refutes checks c := by
  simp only [Refutes, mem_cons, or_and_right, exists_or, exists_eq_left]

theorem refutes_append (checks others : List CheckResult) (c : Capability) :
    Refutes (checks ++ others) c ↔ Refutes checks c ∨ Refutes others c := by
  simp only [Refutes, mem_append, or_and_right, exists_or]

private theorem mem_of_mem_inTurn {steps : List (BackendCall × Ends Unit)} {call : BackendCall}
    (h : call ∈ (inTurn steps).2) : call ∈ steps.map fst := by
  induction steps with
  | nil => cases h
  | cons step _ ih =>
    obtain ⟨_, ends⟩ := step
    cases ends with
    | error => exact mem_cons.2 (.inl (mem_singleton.1 h))
    | ok => exact mem_cons.2 ((mem_cons.1 h).imp_right ih)

open Behaviour

theorem writeCalls_exercise (b : Behaviour) (c : Capability) :
    (∃ call ∈ b.writeResult.2, call.exercises = some c) ↔ c = .write := by
  constructor
  · rintro ⟨_, hmem, hcall⟩
    have hsteps := mem_of_mem_inTurn hmem
    simp only [map_cons, map_nil, mem_cons, not_mem_nil, or_false] at hsteps
    rcases hsteps with rfl | rfl | rfl | rfl
    all_goals exact (Option.some.inj hcall).symm
  · rintro rfl
    refine ⟨.ensureDir, ?_, rfl⟩
    rw [writeResult]
    cases b.ensureDir with
    | error | ok => exact mem_cons_self

theorem readCalls_exercise (b : Behaviour) (c : Capability) :
    (∃ call ∈ b.readResult.2, call.exercises = some c) ↔ c = .read := by
  rw [readResult]
  cases b.openRead with
  | error | ok => simp [BackendCall.exercises, eq_comm]

@[simp] theorem insertCapability_eq_true (c other : Capability) (verified : Capability → Bool) :
    insertCapability c verified other ↔ other = c ∨ verified other := by
  simp [insertCapability]

open Library

theorem readBackCheck_spec (b : Behaviour) (verified : Capability → Bool) :
    ((l.readBackCheck b verified).1.status = .failed ↔ ¬ l.ReadsBack b) ∧
      (l.readBackCheck b verified).1.calls = b.writeResult.2 ++ b.readResult.2 ∧
      (verified .read → (l.readBackCheck b verified).2 = verified) := by
  rw [readBackCheck, ReadsBack]
  cases b.readResult.1 with
  | error => simp [recordFail]
  | ok bytes =>
    by_cases hhash : l.sha256 bytes = l.sha256 b.payload
    · refine ⟨by simp [hhash, recordOk], by simp [hhash, recordOk], fun hread => funext fun c => ?_⟩
      simp only [hhash, ne_eq, not_true_eq_false, if_false]
      rw [Bool.eq_iff_iff, insertCapability_eq_true, or_iff_right_of_imp]
      rintro rfl
      exact hread
    · simp [hhash, recordFail]

theorem readBackCheck_exercises (b : Behaviour) (verified : Capability → Bool) (c : Capability) :
    (l.readBackCheck b verified).1.Exercises c ↔ c = .read ∨ c = .write := by
  rw [CheckResult.Exercises, (readBackCheck_spec l b verified).2.1]
  simp only [mem_append, or_and_right, exists_or, writeCalls_exercise, readCalls_exercise]
  exact Or.comm

private theorem exercises_singleton (check : String) (status : ValidationStatus)
    (kind : Option ErrorKind) (message : Text) (call : BackendCall) (c : Capability) :
    CheckResult.Exercises ⟨check, status, kind, message, [call]⟩ c ↔ call.exercises = some c := by
  simp [CheckResult.Exercises]

variable {verified : Capability → Bool}

theorem runReadWriteTest_verified (b : Behaviour) (hread : verified .read) (c : Capability) :
    (l.runReadWriteTest b verified).verified c ↔ verified c ∨ (b.writeResult.1 = .ok () ∧
        (c = .write ∨ (c = .delete ∧ b.delete = .ok ()))) := by
  rw [runReadWriteTest]
  cases hwrite : b.writeResult.1 with
  | error => simp
  | ok =>
    have hsame := (readBackCheck_spec l b (insertCapability .write verified)).2.2 (by simp [hread])
    cases hdelete : b.delete with
    | error => simp [hsame, or_comm]
    | ok => simp [hsame, or_comm, or_left_comm]

theorem refutes_runReadWriteTest (b : Behaviour) (verified : Capability → Bool)
    (hc : c = .read ∨ c = .write) :
    Refutes (l.runReadWriteTest b verified).checks c ↔ (c = .write ∧ b.writeResult.1 ≠ .ok ()) ∨
        (b.writeResult.1 = .ok () ∧ ¬ l.ReadsBack b) := by
  rw [runReadWriteTest]
  cases hwrite : b.writeResult.1 with
  | error => simp [recordFail, CheckResult.Exercises, writeCalls_exercise]
  | ok =>
    have hdelete : BackendCall.delete.exercises ≠ some c := by
      rintro hdelete
      cases hdelete
      simp at hc
    have hstatus := (readBackCheck_spec l b (insertCapability .write verified)).1
    cases b.delete with
    | error => simp [hstatus, readBackCheck_exercises, exercises_singleton, hc, hdelete]
    | ok => simp [hstatus, readBackCheck_exercises, hc]

theorem spaceCheck_status (b : Behaviour) : (spaceCheck b).status ≠ .failed := by
  rw [spaceCheck]
  cases b.freeSpace with
  | error => exact nofun
  | ok space =>
    cases space with
    | none | some => exact nofun

theorem checksOf_of_not_lists (h : ¬ b.Lists) : (l.checksOf mode b).verified = none := by
  rw [checksOf]
  cases hconnect : b.connect with
  | error => rfl
  | ok =>
    cases hlist : b.list with
    | error => rfl
    | ok entries => exact absurd ⟨hconnect, entries, hlist⟩ h

theorem testStage_of_untested (b : Behaviour) (canRead : Bool)
    (h : ¬ (mode = .readWrite ∧ canRead ∧ b.possible .write)) (verified : Capability → Bool) :
    (l.testStage mode b canRead verified).verified = verified ∧
      ∀ c, ¬ Refutes (l.testStage mode b canRead verified).checks c := by
  rw [testStage]
  split_ifs with htest hpossible hmode
  · exact absurd ⟨htest.1, htest.2, hpossible⟩ h
  · simp [recordSkip]
  · simp [recordSkip]
  · simp

theorem testStage_of_reads (h : b.Reads) :
    (∀ c, (l.testStage mode b true fun c => c = .read || c = .list).verified c ↔ b.Proves mode c) ∧
    ∀ c, c = .read ∨ c = .write → b.Proves mode c →
      (Refutes (l.testStage mode b true fun c => c = .read || c = .list).checks c ↔
        b.Writes mode ∧ ¬ l.ReadsBack b) := by
  by_cases htest : mode = .readWrite ∧ b.possible .write
  · obtain ⟨rfl, hpossible⟩ := htest
    have hwrites : b.Writes .readWrite ↔ b.writeResult.1 = .ok () := by
      simp [Writes, h, hpossible]
    simp only [testStage, hpossible, not_true_eq_false, and_self, if_true, if_false]
    constructor
    · intro c
      rw [runReadWriteTest_verified l b (by simp)]
      cases c with
      | read => simp [Proves, h]
      | list => simp [Proves, h.1]
      | write | delete => simp [Proves, hwrites]
    · intro c hc hproves
      rw [refutes_runReadWriteTest l b _ hc, hwrites]
      constructor
      · rintro (⟨rfl, hfailed⟩ | htested)
        · exact absurd (hwrites.1 hproves) hfailed
        · exact htested
      · exact .inr
  · have hwrites : ¬ b.Writes mode := fun hwrites => htest ⟨hwrites.2.1, hwrites.2.2.1⟩
    obtain ⟨hverified, hchecks⟩ := testStage_of_untested l mode b true
      (fun hall => htest ⟨hall.1, hall.2.2⟩) fun c => c = .read || c = .list
    rw [hverified]
    constructor
    · intro c
      cases c with
      | read => simp [Proves, h]
      | list => simp [Proves, h.1]
      | write | delete => simp [Proves, hwrites]
    · intro c hc hproves
      exact iff_of_false (hchecks c) fun hboth => hwrites hboth.1

theorem checksOf_of_not_reads (hlists : b.Lists) (h : ¬ b.Reads) :
    (l.checksOf mode b).verified = some fun _ => false := by
  obtain ⟨hconnect, entries, hlist⟩ := hlists
  cases hstat : b.stat with
  | error =>
    obtain ⟨hverified, -⟩ := testStage_of_untested l mode b false
      (fun hall => nomatch hall.2.1) fun c => false && (c = .read || c = .list)
    simp only [checksOf, hconnect, hlist, readPermission, hstat]
    exact congrArg some hverified
  | ok => exact absurd ⟨⟨hconnect, entries, hlist⟩, hstat⟩ h

theorem checksOf_of_reads (h : b.Reads) :
    ∃ verified, (l.checksOf mode b).verified = some verified ∧ (∀ c, verified c ↔ b.Proves mode c) ∧
      ∀ c, c = .read ∨ c = .write → b.Proves mode c →
        (Refutes (l.checksOf mode b).checks c ↔ b.Writes mode ∧ ¬ l.ReadsBack b) := by
  obtain ⟨hverified, hrefutes⟩ := testStage_of_reads l mode h
  obtain ⟨⟨hconnect, entries, hlist⟩, hstat⟩ := h
  refine ⟨_, ?_, hverified, fun c hc hproves => ?_⟩
  · simp [checksOf, hconnect, hlist, readPermission, hstat]
  · rw [← hrefutes c hc hproves]
    simp only [checksOf, hconnect, hlist, readPermission, hstat, Bool.true_and, refutes_append]
    simp [recordOk, spaceCheck_status]

variable {d : Database} {stored after : Capability → Bool}

theorem persist_eq_ok {capabilities : List Capability}
    (h : persist d verified capabilities stored = (.ok (), after)) (c : Capability) :
    after c = if c ∈ capabilities then verified c else stored c := by
  induction capabilities generalizing stored with
  | nil =>
    obtain rfl : stored = after := congrArg snd h
    rfl
  | cons first rest ih =>
    rw [persist] at h
    cases hset : d.setVerifiedCapability first with
    | error =>
      rw [hset] at h
      exact nomatch congrArg fst h
    | ok =>
      rw [hset] at h
      rw [ih h]
      by_cases hrest : c ∈ rest
      · simp [hrest]
      · by_cases hfirst : c = first
        · simp [hfirst]
        · simp [hrest, hfirst]

theorem Capability.mem_all (c : Capability) : c ∈ Capability.all := by
  cases c
  all_goals decide

variable {checks : List CheckResult} {status : ValidationStatus}

private theorem checks_of_finish {made : List CheckResult}
    (h : finish d made = .ok (checks, status)) : made = checks := by
  obtain ⟨_, -, h⟩ := bind_eq_ok.1 h
  obtain ⟨_, -, h⟩ := bind_eq_ok.1 h
  exact congrArg fst (Except.ok.inj h)

variable {mode}

private theorem validate_eq_ok {l : Library δ}
    (h : l.validate mode b d stored = (.ok (checks, status), after)) :
    checks = (l.checksOf mode b).checks ∧ after = (l.checksOf mode b).verified.getD stored := by
  rw [validate] at h
  cases hstart : d.start with
  | error =>
    rw [hstart] at h
    exact nomatch congrArg fst h
  | ok =>
    rw [hstart] at h
    cases hverified : (l.checksOf mode b).verified with
    | none =>
      simp only [hverified] at h
      exact ⟨(checks_of_finish (congrArg fst h)).symm, (congrArg snd h).symm⟩
    | some verified =>
      simp only [hverified] at h
      cases hpersist : persist d verified Capability.all stored with
      | mk ends kept =>
        rw [hpersist] at h
        cases ends with
        | error => exact nomatch congrArg fst h
        | ok =>
          obtain rfl : kept = after := congrArg snd h
          refine ⟨(checks_of_finish (congrArg fst h)).symm, funext fun c => ?_⟩
          rw [persist_eq_ok hpersist, if_pos c.mem_all]
          rfl

/-- Once a run is finished the stored capabilities are those it proves, and no failed check speaks
against reading or writing, if and only if it was conclusive. -/
theorem sound_iff_conclusive {l : Library δ} {mode : ValidationMode} {b : Behaviour}
    {d : Database} {stored after : Capability → Bool} {checks : List CheckResult}
    {status : ValidationStatus} (h : l.validate mode b d stored = (.ok (checks, status), after)) :
    Sound mode b checks after ↔ l.Conclusive mode b stored := by
  obtain ⟨rfl, rfl⟩ := validate_eq_ok h
  by_cases hreads : b.Reads
  · obtain ⟨_, hverified, hproves, hrefutes⟩ := checksOf_of_reads l mode hreads
    rw [hverified, Conclusive]
    simp only [hreads, true_or, true_and]
    constructor
    · rintro ⟨-, hclean⟩ hwrites
      by_contra hback
      exact hclean .read (.inl rfl) ((hproves _).2 hreads)
        ((hrefutes .read (.inl rfl) hreads).2 ⟨hwrites, hback⟩)
    · intro hback
      refine ⟨hproves, fun c hc hstored hrefuted => ?_⟩
      obtain ⟨hwrites, hnot⟩ := (hrefutes c hc ((hproves c).1 hstored)).1 hrefuted
      exact hnot (hback hwrites)
  · have hwrites : b.Writes mode → l.ReadsBack b := fun hwrites => absurd hwrites.1 hreads
    rw [Conclusive, or_iff_right hreads, and_iff_left hwrites]
    by_cases hlists : b.Lists
    · rw [checksOf_of_not_reads l mode hlists hreads]
      -- Nothing is stored, though the listing passed.
      exact iff_of_false (fun hsound => nomatch (hsound.1 .list).2 hlists)
        fun hempty => hempty.1 hlists
    · have hproves : ∀ c, ¬ b.Proves mode c := fun c hproves => hlists hproves.lists
      rw [checksOf_of_not_lists l mode hlists, Option.getD_none]
      constructor
      · rintro ⟨hstored, -⟩
        exact ⟨hlists, fun c => Bool.eq_false_iff.2 fun htrue => hproves c ((hstored c).1 htrue)⟩
      · rintro ⟨-, hempty⟩
        refine ⟨fun c => ?_, fun c hc htrue => ?_⟩
        · simp [hempty c, hproves c]
        · rw [hempty c] at htrue
          cases htrue

def plainLibrary : Library (List UInt8) where
  sha256 bytes := bytes
  toLowercase message := message

def returning (bytes : List UInt8) : Behaviour where
  connect := .ok ()
  list := .ok 0
  stat := .ok ()
  possible _ := true
  payload := [115]
  ensureDir := .ok ()
  openWrite := .ok ()
  writeAll := .ok ()
  shutdown := .ok ()
  openRead := .ok ()
  readToEnd := .ok bytes
  delete := .ok ()
  freeSpace := .ok none

def reliable : Database := ⟨.ok (), fun _ => .ok (), .ok (), .ok ()⟩

theorem sound_iff_conclusive_returning :
    Sound .readWrite (returning [115]) (plainLibrary.checksOf .readWrite (returning [115])).checks
      (plainLibrary.validate .readWrite (returning [115]) reliable fun _ => false).2 :=
  (sound_iff_conclusive (l := plainLibrary) (b := returning [115]) (d := reliable) rfl).2
    ⟨.inl ⟨⟨rfl, 0, rfl⟩, rfl⟩, fun _ => ⟨[115], rfl, rfl⟩⟩

def unreachable : Behaviour := { returning [115] with connect := .error "unreachable" }

/-- A server that cannot be reached leaves all that was verified; one that returns another file is
verified for reading. -/
theorem not_sound_of_unreachable_and_of_corrupting :
    (∃ checks, plainLibrary.validate .readWrite unreachable reliable (fun _ => true) =
        (.ok (checks, .failed), fun _ => true) ∧
      ¬ Sound .readWrite unreachable checks fun _ => true) ∧
    ∃ checks after, plainLibrary.validate .readWrite (returning [0]) reliable (fun _ => false) =
        (.ok (checks, .failed), after) ∧ after .read ∧ after .write ∧
      ¬ Sound .readWrite (returning [0]) checks after := by
  refine ⟨⟨_, rfl, fun h => ?_⟩, _, _, rfl, rfl, rfl, fun h => ?_⟩
  · exact nomatch ((h.1 .read).1 rfl).1.1
  · refine h.2 .read (.inl rfl) rfl ⟨(plainLibrary.readBackCheck (returning [0]) fun _ => true).1,
      ?_, rfl, .openRead, by decide, rfl⟩
    exact mem_cons_of_mem _ (mem_cons_of_mem _ (mem_cons_of_mem _
      mem_cons_self))

end Abyssal.Sepulchre
