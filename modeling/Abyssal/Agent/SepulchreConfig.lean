import Abyssal.Agent.ManagedFile

/-!
# Applying a Sepulchre configuration

The agent reads the drop-in of `sshd`, or the include file of Samba, writes the new content, has the
daemon's own program validate it and reloads the daemon. If either fails it writes back what it
read. The write back is not checked, and a file that could not be read counts as empty.

## Main results

* `recovered_iff_faithful`: when the old content is back.
-/

namespace Abyssal.Agent.Sepulchre

inductive ConfigTarget where
  | sshdDropIn
  | sambaInclude
  deriving DecidableEq

/-- The services that `target_info` has for a file. -/
def reloadServiceCandidates : ConfigTarget → List String
  | .sshdDropIn => ["sshd", "ssh"]
  | .sambaInclude => ["smbd", "samba"]

structure Answers (β : Type*) where
  read : CatAnswer
  write : TeeAnswer β
  /-- the validation program: an error if it could not be run -/
  validate : Except String OperationOutput
  /-- `systemctl reload` of each service -/
  reload : String → Except String OperationOutput
  restore : TeeAnswer β

/-- The loop of `reload_service`: the first candidate that reloads, or the last error. -/
def reloadLoop (reload : String → Except String OperationOutput) (lastError : String) :
    List String → Except String OperationOutput
  | [] => .error lastError
  | service :: rest =>
    match reload service with
    | .ok output => .ok output
    | .error e => reloadLoop reload e rest

def reloadService (candidates : List String) (reload : String → Except String OperationOutput) :
    Except String OperationOutput :=
  match reloadLoop reload "" candidates with
  | .ok output => .ok output
  | .error lastError =>
    .error ("none of the candidate services (" ++ ", ".intercalate candidates ++
      ") could be reloaded: " ++ lastError)

inductive Failure where
  | unread (error : String)
  | unwritten (error : String)
  | notReloaded (error : String)
  | invalid (stdout stderr : Text)
  | unvalidated (error : String)

/-- What the message says besides the error or the output that it hands on. -/
def Failure.words : Failure → String
  | .unread _ => ""
  | .unwritten _ => ""
  | .notReloaded _ =>
    "reload failed after applying the new config; restored the previous version: "
  | .invalid _ _ => "configuration validation failed; restored the previous version.\n"
  | .unvalidated _ =>
    "could not run the validation command; restored the previous version: "

def Failure.saysRestored (f : Failure) : Bool :=
  (Text.splitAtText "; restored the previous version" f.words.toList).isSome

def Failure.saysNotRestored (f : Failure) : Bool := Agent.saysNotRestored f.words.toList

variable {β : Type*}

/-- The write back, whose result nobody looks at. -/
def restore (u : Utf8 β) (previous : Text) (answers : Answers β) : Option β :=
  (writeManagedFile u previous answers.restore).2

variable (u : Utf8 β) (target : ConfigTarget) (content : Text) (answers : Answers β)

/-- `render_sepulchre_config`: its outcome and the file afterwards. -/
def renderSepulchreConfig (file : Option β) : Except Failure OperationOutput × Option β :=
  match readManagedFile u file answers.read with
  | .error e => (.error (.unread e), file)
  | .ok previous =>
    match writeManagedFile u content answers.write with
    | (.error e, file) => (.error (.unwritten e), file)
    | (.ok _, file) =>
      match answers.validate with
      | .ok output =>
        if output.exitCode = some 0 then
          match reloadService (reloadServiceCandidates target) answers.reload with
          | .ok reloadOutput =>
            (.ok { reloadOutput with
              stdout := "Applied and reloaded.\n" ++ reloadOutput.stdout }, file)
          | .error e => (.error (.notReloaded e), restore u previous answers)
        else (.error (.invalid output.stdout output.stderr), restore u previous answers)
      | .error e => (.error (.unvalidated e), restore u previous answers)

/-- After an error the previous content is in the file or the error says that it is not, and an
error that says it was restored is right. -/
def Recovered (before : Option β) (result : Except Failure OperationOutput × Option β) : Prop :=
  ∀ f, result.1 = .error f →
    (result.2 = before ∨ f.saysNotRestored = true) ∧ (f.saysRestored = true → result.2 = before)

/-- The operation gets as far as the write back: the new content is written, and the validation
or the reload fails. -/
def Answers.FallsBack (target : ConfigTarget) : Prop :=
  match answers.validate with
  | .ok output => output.exitCode = some 0 →
      ∀ service ∈ reloadServiceCandidates target,
        ∃ e, answers.reload service = .error e
  | .error _ => True

/-- `cat` printed the file, and it is text; or `cat` was refused, and the file is there and empty.
-/
def Answers.ReadsBack (u : Utf8 β) (file : Option β) : Prop :=
  ∃ bytes, file = some bytes ∧
    match answers.read with
    | .printed => u.encode (u.decodeLossy bytes) = bytes
    | _ => u.encode [] = bytes

/-- A write that fails leaves the file alone, and what the operation writes back was there. -/
def Answers.Faithful (u : Utf8 β) (target : ConfigTarget) (file : Option β) : Prop :=
  (∀ e, answers.read ≠ .unspawned e) →
    match answers.write with
    | .failed _ left => left = file
    | .written _ => answers.FallsBack target →
        match answers.restore with
        | .failed _ left => left = file
        | .written _ => answers.ReadsBack u file

private theorem reloadLoop_error_iff (reload : String → Except String OperationOutput)
    (lastError : String) (candidates : List String) :
    (∃ e, reloadLoop reload lastError candidates = .error e) ↔
      ∀ service ∈ candidates, ∃ e, reload service = .error e := by
  induction candidates generalizing lastError with
  | nil => simp [reloadLoop]
  | cons service _ ih =>
    rw [reloadLoop, List.forall_mem_cons]
    cases hreload : reload service with
    | ok => simp
    | error => simp [ih]

private theorem reloadService_error_iff (candidates : List String)
    (reload : String → Except String OperationOutput) :
    (∃ e, reloadService candidates reload = .error e) ↔
      ∀ service ∈ candidates, ∃ e, reload service = .error e := by
  rw [← reloadLoop_error_iff reload "", reloadService]
  cases reloadLoop reload "" candidates with
  | ok | error => simp

variable {answers : Answers β} {file : Option β} {previous : Text}

theorem renderSepulchreConfig_cases {output : OperationOutput}
    (hread : readManagedFile u file answers.read = .ok previous)
    (hwrite : answers.write = .written output) :
    (¬ answers.FallsBack target ∧ ∃ applied, renderSepulchreConfig u target content answers file =
        (.ok applied, some (u.encode content))) ∨
    (answers.FallsBack target ∧ ∃ f : Failure,
        renderSepulchreConfig u target content answers file =
          (.error f, restore u previous answers)) := by
  simp only [renderSepulchreConfig, hread, hwrite, writeManagedFile, Answers.FallsBack]
  cases answers.validate with
  | error => exact .inr ⟨trivial, _, rfl⟩
  | ok checked =>
    by_cases hexit : checked.exitCode = some 0
    · simp only [hexit, if_true, true_implies]
      rw [← reloadService_error_iff]
      cases reloadService (reloadServiceCandidates target) answers.reload with
      | ok => exact .inl ⟨(fun h => nomatch h), _, rfl⟩
      | error e => exact .inr ⟨⟨e, rfl⟩, _, rfl⟩
    · simp only [hexit, if_false]
      exact .inr ⟨(fun h => nomatch h), _, rfl⟩

theorem restore_eq_iff (u : Utf8 β) (hread : readManagedFile u file answers.read = .ok previous) :
    restore u previous answers = file ↔ match answers.restore with
      | .failed _ left => left = file
      | .written _ => answers.ReadsBack u file := by
  rw [restore]
  cases answers.restore with
  | failed => rfl
  | written =>
    simp only [writeManagedFile, Answers.ReadsBack]
    cases hanswer : answers.read with
    | unspawned =>
      rw [hanswer] at hread
      cases hread
    | refused =>
      rw [hanswer] at hread
      cases hread
      constructor
      · intro h
        exact ⟨_, h.symm, rfl⟩
      · rintro ⟨bytes, rfl, rfl⟩
        rfl
    | printed =>
      rw [hanswer] at hread
      cases hread
      constructor
      · intro h
        cases file with
        | none => cases h
        | some bytes => exact ⟨bytes, rfl, Option.some.inj h⟩
      · rintro ⟨_, rfl, h⟩
        exact congrArg some h

private theorem recovered_error_iff {f : Failure} {before after : Option β} :
    Recovered before (.error f, after) ↔ after = before := by
  constructor
  · intro h
    have hsilent : f.saysNotRestored ≠ true := by
      cases f
      all_goals
        rewrite [Failure.saysNotRestored, Failure.words]
        decide +kernel
    exact (h f rfl).1.resolve_right hsilent
  · rintro rfl f hf
    exact ⟨.inl rfl, fun _ => rfl⟩

private theorem eq_unspawned_of_error {u : Utf8 β} {answer : CatAnswer} {e : String}
    (h : readManagedFile u file answer = .error e) : answer = .unspawned e := by
  cases answer with
  | unspawned => exact congrArg _ (Except.error.inj h)
  | refused | printed => cases h

/-- An error leaves the previous content, or says that it does not, and claims no restoration that
did not happen, if and only if the programs end faithfully. -/
theorem recovered_iff_faithful (answers : Answers β) (file : Option β) :
    Recovered file (renderSepulchreConfig u target content answers file) ↔
      answers.Faithful u target file := by
  cases hread : readManagedFile u file answers.read with
  | error e =>
    have hanswer : answers.read = .unspawned e := eq_unspawned_of_error hread
    have hresult : renderSepulchreConfig u target content answers file =
        (.error (.unread e), file) := by
      rw [renderSepulchreConfig, hread]
    rw [hresult, recovered_error_iff]
    exact iff_of_true rfl fun h => absurd hanswer (h e)
  | ok =>
    have hanswer : ∀ e, answers.read ≠ .unspawned e := by
      intro e hanswer
      rw [hanswer] at hread
      cases hread
    rw [Answers.Faithful, imp_iff_right hanswer]
    cases hwrite : answers.write with
    | failed e left =>
      have hresult : renderSepulchreConfig u target content answers file =
          (.error (.unwritten e), left) := by
        rw [renderSepulchreConfig, hread, hwrite]
        rfl
      rw [hresult, recovered_error_iff]
    | written =>
      obtain ⟨happlied, applied, hresult⟩ | ⟨hfalls, f, hresult⟩ :=
        renderSepulchreConfig_cases u target content hread hwrite
      · rw [hresult]
        exact iff_of_true (fun f hf => nomatch hf) fun hfalls => absurd hfalls happlied
      · rw [hresult, recovered_error_iff, restore_eq_iff u hread, imp_iff_right hfalls]

/-- `sshd -t` rejects the new drop-in, and the write back fails and leaves the file empty. -/
def fullDisk : Answers Text where
  read := .printed
  write := .written ⟨[], [], some 0⟩
  validate := .ok ⟨[], "bad configuration option", some 255⟩
  reload _ := .error "not reached"
  restore := .failed "tee: No space left on device" (some [])

/-- The operation reports the previous version as restored, and the file is empty. -/
theorem not_recovered_of_fullDisk : let old := "Match User backup\n".toList
    let result := renderSepulchreConfig plainUtf8 .sshdDropIn "Match Usr backup\n".toList fullDisk
      (some old)
    result = (.error (.invalid [] "bad configuration option".toList), some []) ∧
      ¬ Recovered (some old) result := by
  refine ⟨rfl, fun h => ?_⟩
  have hrestored := (h _ rfl).2 rfl
  cases hrestored

end Abyssal.Agent.Sepulchre
