import Abyssal.Agent.GrimoireFiles
import Abyssal.Agent.ManagedFile

/-!
# Grimoire

Each operation reads the whole file, edits the entries and writes all of them. A file that cannot be
read counts as empty. The state has a content for each of the four files, and the abstract state a
map for each, from the key of an entry to the entry as it was last set.

## Main results

* `reads_iff_tidy`: when the files are read as the maps.
-/

namespace Abyssal.Agent.Grimoire

open Text List Function Option Prod Table

inductive ManagedFile where
  /-- `SYSCTL_FILE` -/
  | sysctl
  /-- `CRON_FILE` -/
  | cron
  /-- `MODPROBE_FILE` -/
  | modprobe
  /-- `JOURNALD_FILE` -/
  | journald
  deriving DecidableEq

def Entry : ManagedFile → Type
  | .sysctl => Text × Text
  | .cron => CronJob
  | .modprobe => Text
  | .journald => Text × Text

def format : (file : ManagedFile) → EntryFormat (Entry file) Text
  | .sysctl => {
      key := fst
      Settable := SettableSysctl
      parse := parseSysctl
      render := renderSysctl
      reading := fun entry => readPair ['#'] (sysctlLine entry)
      parse_nil := rfl
      parse_render := fun _ h => parseSysctl_renderSysctl h
      key_of_reading := fun e e' h hread => by
        rw [readSysctl_sysctlLine h] at hread
        obtain rfl := some.inj hread
        rfl }
  | .cron => {
      key := CronJob.name
      Settable := SettableCron
      parse := parseCron
      render := renderCron
      reading := CronJob.reading
      parse_nil := rfl
      parse_render := fun _ h => parseCron_renderCron h
      key_of_reading := fun _ _ _ hread => name_of_reading hread }
  | .modprobe => {
      key := id
      Settable := fun m => isValidKernelModuleName m = true
      parse := parseBlacklist
      render := renderBlacklist
      reading := fun m => readBlacklist (blacklistLine m)
      parse_nil := rfl
      parse_render := fun _ h => parseBlacklist_renderBlacklist h
      key_of_reading := fun e e' h hread => by
        rw [readBlacklist_blacklistLine h] at hread
        exact (some.inj hread).symm }
  | .journald => {
      key := fst
      Settable := SettableJournald
      parse := parseJournald
      render := renderJournald
      reading := fun entry => readPair ['#', '['] (journaldLine entry)
      parse_nil := rfl
      parse_render := fun _ h => parseJournald_renderJournald h
      key_of_reading := fun e e' h hread => by
        rw [readJournald_journaldLine h] at hread
        exact congrArg fst (some.inj hread).symm }

/-! ### The operations -/

variable {β : Type*}

structure Answers (β : Type*) where
  read : CatAnswer
  /-- `mkdir -p` of the directory of the journal's file -/
  mkdir : Except String OperationOutput
  write : TeeAnswer β
  /-- `sysctl -p` of the file, or the restart of the journal -/
  apply : Except String OperationOutput

variable (u : Utf8 β)

/-- Refuse, or read the file and write what becomes of it. -/
def rewriteFile (refusal : Option String) (becomes : Text → Text)
    (message : Text) (answers : Answers β) (file : Option β) : Written β :=
  match refusal with
  | some e => (.error e, file)
  | none =>
    match readManagedFile u file answers.read with
    | .error e => (.error e, file)
    | .ok current =>
      match writeManagedFile u (becomes current) answers.write with
      | (.error e, file) => (.error e, file)
      | (.ok output, file) => (.ok { output with stdout := message ++ '\n' :: output.stdout }, file)

def clearFile (header message : Text) (answers : Answers β) : Written β :=
  match writeManagedFile u header answers.write with
  | (.error e, file) => (.error e, file)
  | (.ok output, file) => (.ok { output with stdout := message ++ '\n' :: output.stdout }, file)

def refusing (valid : Bool) (what : String) (value : Text) : Option String :=
  if valid then none else some ("refusing invalid " ++ what ++ ": " ++ String.ofList value)

def setPersistentSysctl (key value : Text) (answers : Answers β) (file : Option β) : Written β :=
  let refusal := (refusing (isValidSysctlKey key) "sysctl key" key).or
    (refusing (isValidSysctlValue value) "sysctl value" value)
  let becomes := fun current => renderSysctl (put fst (key, value) (parseSysctl current))
  match rewriteFile u refusal becomes [] answers file with
  | (.error e, file) => (.error e, file)
  | (.ok _, file) =>
    match answers.apply with
    | .error e => (.error e, file)
    | .ok output =>
      (.ok { output with
        stdout := "Set " ++ key ++ " = " ++ value ++ " and applied it.\n" ++
          output.stdout }, file)

def removePersistentSysctlKey (key : Text) : Answers β → Option β → Written β :=
  rewriteFile u (refusing (isValidSysctlKey key) "sysctl key" key)
    (fun current => renderSysctl ((parseSysctl current).filter (·.1 ≠ key)))
    ("Removed " ++ key ++ " from the managed sysctl file.")

def clearManagedSysctl : Answers β → Written β :=
  clearFile u sysctlHeader "Cleared the managed sysctl file."

def setCronJob (job : CronJob) : Answers β → Option β → Written β :=
  rewriteFile u
    ((((refusing (isValidAccountName job.name) "job name" job.name).or
      (refusing (isValidCronSchedule job.schedule) "cron schedule" job.schedule)).or
      (refusing (isValidAccountName job.user) "user" job.user)).or
      (if isValidCronCommand job.command then none else some "refusing invalid cron command"))
    (fun current => renderCron (put CronJob.name job (parseCron current)))
    ("Set scheduled task \"" ++ job.name ++ "\".")

def removeCronJob (jobName : Text) : Answers β → Option β → Written β :=
  rewriteFile u (refusing (isValidAccountName jobName) "job name" jobName)
    (fun current => renderCron ((parseCron current).filter (·.name ≠ jobName)))
    ("Removed scheduled task \"" ++ jobName ++ "\".")

def clearManagedCronJobs : Answers β → Written β :=
  clearFile u cronHeader "Cleared the managed scheduled tasks file."

def blacklistModule (m : Text) : Answers β → Option β → Written β :=
  rewriteFile u (refusing (isValidKernelModuleName m) "module name" m)
    (fun current =>
      let modules := parseBlacklist current
      renderBlacklist (if modules.contains m then modules else modules ++ [m]))
    ("Blacklisted " ++ m ++ (". Takes effect on the next module load or boot; " ++
      "an already-loaded module is unaffected.").toList)

def removeModuleBlacklist (m : Text) : Answers β → Option β → Written β :=
  rewriteFile u (refusing (isValidKernelModuleName m) "module name" m)
    (fun current => renderBlacklist ((parseBlacklist current).filter (· ≠ m)))
    ("Removed " ++ m ++ " from the managed blacklist.")

def clearModuleBlacklist : Answers β → Written β :=
  clearFile u modprobeHeader "Cleared the managed module blacklist."

/-- `write_journald`, and the answer with a message that its callers give. -/
def writeJournald (content message : Text) (answers : Answers β) (file : Option β) : Written β :=
  match answers.mkdir with
  | .error e => (.error e, file)
  | .ok _ =>
    match writeManagedFile u content answers.write with
    | (.error e, file) => (.error e, file)
    | (.ok _, file) =>
      match answers.apply with
      | .error e => (.error e, file)
      | .ok _ => (.ok ⟨message, [], some 0⟩, file)

def setJournaldRetention (setting : JournaldSetting) (value : Text)
    (answers : Answers β) (file : Option β) : Written β :=
  match refusing (isValidJournaldValue value) "journald value" value with
  | some e => (.error e, file)
  | none =>
    match readManagedFile u file answers.read with
    | .error e => (.error e, file)
    | .ok current =>
      let entries := put fst (setting.key, value) (parseJournald current)
      writeJournald u (renderJournald entries)
        ("Set journald " ++ setting.key ++ "=" ++ value ++
          " and restarted systemd-journald.") answers file

def clearJournaldConfig : Answers β → Option β → Written β :=
  writeJournald u (journaldHeader ++ "[Journal]\n")
    "Cleared managed journald config and restarted systemd-journald."

inductive Operation where
  | setPersistentSysctl (key value : Text)
  | removePersistentSysctlKey (key : Text)
  | clearManagedSysctl
  | setCronJob (job : CronJob)
  | removeCronJob (jobName : Text)
  | clearManagedCronJobs
  | blacklistModule (m : Text)
  | removeModuleBlacklist (m : Text)
  | clearModuleBlacklist
  | setJournaldRetention (setting : JournaldSetting) (value : Text)
  | clearJournaldConfig

def Operation.file : Operation → ManagedFile
  | .setPersistentSysctl _ _ => .sysctl
  | .removePersistentSysctlKey _ => .sysctl
  | .clearManagedSysctl => .sysctl
  | .setCronJob _ => .cron
  | .removeCronJob _ => .cron
  | .clearManagedCronJobs => .cron
  | .blacklistModule _ => .modprobe
  | .removeModuleBlacklist _ => .modprobe
  | .clearModuleBlacklist => .modprobe
  | .setJournaldRetention _ _ => .journald
  | .clearJournaldConfig => .journald

def Operation.run (answers : Answers β) (file : Option β) : Operation → Written β
  | .setPersistentSysctl key value => Grimoire.setPersistentSysctl u key value answers file
  | .removePersistentSysctlKey key => Grimoire.removePersistentSysctlKey u key answers file
  | .clearManagedSysctl => Grimoire.clearManagedSysctl u answers
  | .setCronJob job => Grimoire.setCronJob u job answers file
  | .removeCronJob jobName => Grimoire.removeCronJob u jobName answers file
  | .clearManagedCronJobs => Grimoire.clearManagedCronJobs u answers
  | .blacklistModule m => Grimoire.blacklistModule u m answers file
  | .removeModuleBlacklist m => Grimoire.removeModuleBlacklist u m answers file
  | .clearModuleBlacklist => Grimoire.clearModuleBlacklist u answers
  | .setJournaldRetention setting value =>
    Grimoire.setJournaldRetention u setting value answers file
  | .clearJournaldConfig => Grimoire.clearJournaldConfig u answers file

/-- What the operation is meant to do to the map of its file. -/
def Operation.edit : (op : Operation) → Edit (Entry op.file) Text
  | .setPersistentSysctl key value => .put (key, value)
  | .removePersistentSysctlKey key => .remove key
  | .clearManagedSysctl => .clear
  | .setCronJob job => .put job
  | .removeCronJob jobName => .remove jobName
  | .clearManagedCronJobs => .clear
  | .blacklistModule m => .put m
  | .removeModuleBlacklist m => .remove m
  | .clearModuleBlacklist => .clear
  | .setJournaldRetention setting value => .put (setting.key, value)
  | .clearJournaldConfig => .clear

/-- What the operation sets is read back as it is. -/
def Operation.Tidy : Operation → Prop
  | .setPersistentSysctl _ value => trim value = value
  | .setCronJob job => job.Tidy
  | _ => True

/-! ### What an accepted operation does -/

def text (file : Option β) : Text := file.elim [] u.decodeLossy

/-- What an operation takes for the text of its file. -/
def seen (answers : Answers β) (file : Option β) : Text :=
  if answers.read = .printed then text u file else []

variable {answers : Answers β} {file : Option β} {u : Utf8 β}

theorem readManagedFile_eq_ok
    {current : Text} (h : readManagedFile u file answers.read = .ok current) :
    current = seen u answers file := by
  rw [seen]
  cases hread : answers.read with
  | unspawned =>
    rw [hread] at h
    cases h
  | refused | printed =>
    rw [hread] at h
    exact (Except.ok.inj h).symm

variable {output : OperationOutput} {content : Text}

theorem writeManagedFile_eq_ok {answer : TeeAnswer β}
    (h : writeManagedFile u content answer = (.ok output, file)) :
    file = some (u.encode content) := by
  cases answer with
  | written => exact (mk.inj h).2.symm
  | failed => exact nomatch (mk.inj h).1

variable {file' : Option β} {message : Text}

theorem rewriteFile_eq_ok {refusal : Option String} {becomes : Text → Text}
    (h : rewriteFile u refusal becomes message answers file = (.ok output, file')) :
    refusal = none ∧ file' = some (u.encode (becomes (seen u answers file))) := by
  unfold rewriteFile at h
  split at h
  · exact nomatch (mk.inj h).1
  · refine ⟨rfl, ?_⟩
    split at h
    · exact nomatch (mk.inj h).1
    · next current hread =>
      rw [← readManagedFile_eq_ok hread]
      split at h
      · exact nomatch (mk.inj h).1
      · next hwrite =>
        rw [← (mk.inj h).2]
        exact writeManagedFile_eq_ok hwrite

theorem clearFile_eq_ok {header : Text}
    (h : clearFile u header message answers = (.ok output, file')) :
    file' = some (u.encode header) := by
  rw [clearFile] at h
  split at h
  · exact nomatch (mk.inj h).1
  · next hwrite =>
    rw [← (mk.inj h).2]
    exact writeManagedFile_eq_ok hwrite

theorem writeJournald_eq_ok
    (h : writeJournald u content message answers file = (.ok output, file')) :
    file' = some (u.encode content) := by
  rw [writeJournald] at h
  split at h
  · exact nomatch (mk.inj h).1
  · split at h
    · exact nomatch (mk.inj h).1
    · next hwrite =>
      split at h
      · exact nomatch (mk.inj h).1
      · rw [← (mk.inj h).2]
        exact writeManagedFile_eq_ok hwrite

variable {value : Text}

theorem refusing_eq_none {valid : Bool} {what : String}
    (h : refusing valid what value = none) : valid := by
  rw [refusing] at h
  split_ifs at h with hvalid
  exact hvalid

theorem setPersistentSysctl_eq_ok {key : Text}
    (h : setPersistentSysctl u key value answers file = (.ok output, file')) :
    SettableSysctl (key, value) ∧ file' = some (u.encode (renderSysctl
      (put fst (key, value) (parseSysctl (seen u answers file))))) := by
  rw [setPersistentSysctl] at h
  split at h
  · cases (mk.inj h).1
  · next hrewrite =>
    obtain ⟨hrefusal, hfile⟩ := rewriteFile_eq_ok hrewrite
    obtain ⟨hkey, hvalue⟩ := or_eq_none_iff.1 hrefusal
    split at h
    · cases (mk.inj h).1
    · rw [← (mk.inj h).2]
      exact ⟨⟨refusing_eq_none hkey, refusing_eq_none hvalue⟩, hfile⟩

theorem setCronJob_eq_ok {job : CronJob} (h : setCronJob u job answers file = (.ok output, file')) :
    SettableCron job ∧ file' = some (u.encode (renderCron
      (put CronJob.name job (parseCron (seen u answers file))))) := by
  obtain ⟨hrefusal, hfile⟩ := rewriteFile_eq_ok h
  simp only [or_eq_none_iff] at hrefusal
  obtain ⟨⟨⟨hname, hschedule⟩, huser⟩, hcommand⟩ := hrefusal
  have hvalid : isValidCronCommand job.command := by
    split_ifs at hcommand with hvalid
    exact hvalid
  exact ⟨⟨refusing_eq_none hname, refusing_eq_none hschedule, refusing_eq_none huser, hvalid⟩,
    hfile⟩

theorem setJournaldRetention_eq_ok {setting : JournaldSetting}
    (h : setJournaldRetention u setting value answers file = (.ok output, file')) :
    SettableJournald (setting.key, value) ∧ file' = some (u.encode (renderJournald
      (put fst (setting.key, value) (parseJournald (seen u answers file))))) := by
  rw [setJournaldRetention] at h
  split at h
  · cases (mk.inj h).1
  · next hrefusal =>
    split at h
    · cases (mk.inj h).1
    · next current hread =>
      rw [← readManagedFile_eq_ok hread]
      exact ⟨⟨⟨setting, rfl⟩, refusing_eq_none hrefusal⟩, writeJournald_eq_ok h⟩

private theorem put_module (m : Text) (modules : List Text) :
    (if modules.contains m then modules else modules ++ [m]) = put id m modules := by
  induction modules with
  | nil => rfl
  | cons m' modules ih =>
    rw [put]
    by_cases hm : m' = m
    · subst hm
      simp
    · rw [if_neg (show ¬ id m' = id m from hm), ← ih]
      have hcons : (m' :: modules).contains m = modules.contains m := by
        simp [Ne.symm hm]
      rw [hcons]
      split_ifs
      · rfl
      · rfl

variable {op : Operation}

theorem run_eq_ok (h : op.run u answers file = (.ok output, file')) :
    (format op.file).MaySet op.edit ∧
      file' = some (u.encode ((format op.file).after op.edit (seen u answers file))) := by
  cases op with
  | setPersistentSysctl => exact setPersistentSysctl_eq_ok h
  | removePersistentSysctlKey | removeCronJob | removeModuleBlacklist =>
    exact ⟨trivial, (rewriteFile_eq_ok h).2⟩
  | clearManagedSysctl | clearManagedCronJobs | clearModuleBlacklist =>
    exact ⟨trivial, clearFile_eq_ok h⟩
  | setCronJob => exact setCronJob_eq_ok h
  | blacklistModule =>
    obtain ⟨hrefusal, hfile⟩ := rewriteFile_eq_ok h
    simp only [put_module] at hfile
    exact ⟨refusing_eq_none hrefusal, hfile⟩
  | setJournaldRetention => exact setJournaldRetention_eq_ok h
  | clearJournaldConfig => exact ⟨trivial, writeJournald_eq_ok h⟩

theorem keeps_iff_tidy (h : (format op.file).MaySet op.edit) :
    (format op.file).Keeps op.edit ↔ op.Tidy := by
  cases op with
  | setPersistentSysctl key value =>
    have hread := readSysctl_sysctlLine h
    have hkeeps : (format .sysctl).Keeps (.put (key, value)) ↔
        some (key, trim value) = some (key, value) := by
      rw [← hread]
      rfl
    refine hkeeps.trans ?_
    simp [Operation.Tidy]
  | setCronJob => exact reading_eq_iff_tidy h
  | blacklistModule => exact iff_of_true (readBlacklist_blacklistLine h) trivial
  | setJournaldRetention => exact iff_of_true (readJournald_journaldLine h) trivial
  | _ => exact Iff.rfl

/-! ### Sequences of operations -/

abbrev Files (β : Type*) := ManagedFile → Option β

/-- For each file a map from the keys of its entries to the entries. -/
abbrev Maps := (file : ManagedFile) → Text → Option (Entry file)

abbrev Step (β : Type*) := Operation × Answers β

def perform (u : Utf8 β) (step : Step β) (files : Files β) :
    Except String OperationOutput × Files β :=
  let result := step.1.run u step.2 (files step.1.file)
  (result.1, update files step.1.file result.2)

def afterSteps (u : Utf8 β) (steps : List (Step β)) : Files β :=
  steps.foldl (fun files step => (perform u step files).2) fun _ => none

def Operation.onMaps (op : Operation) (maps : Maps) : Maps :=
  update maps op.file (op.edit.onMap (format op.file).key (maps op.file))

def built (steps : List (Step β)) : Maps :=
  steps.foldl (fun maps step => step.1.onMaps maps) fun _ _ => none

def Accepted (u : Utf8 β) (steps : List (Step β)) : Prop :=
  ∀ done step, done ++ [step] <+: steps →
    ∃ output, (perform u step (afterSteps u done)).1 = .ok output

def Reads (u : Utf8 β) (files : Files β) (maps : Maps) : Prop :=
  ∀ file, (format file).ReadsAs (text u (files file)) (maps file)

/-- The files are read as the maps, and are written as they are read. -/
def Mirrors (u : Utf8 β) (files : Files β) (maps : Maps) : Prop :=
  ∀ file, (format file).Mirrors (text u (files file)) (maps file)

/-- The operation read its file, or there is no entry apart from those it decides about. -/
def Informed (step : Step β) (maps : Maps) : Prop :=
  step.2.read = .printed ∨
    ∀ k, step.1.edit.Touches (format step.1.file).key k ∨ maps step.1.file k = none

theorem mirrors_init (u : Utf8 β) : Mirrors u (fun _ => none) fun _ _ => none :=
  fun file => (format file).mirrors_nil

section Step

variable {u : Utf8 β} {step : Step β} {files : Files β} {maps : Maps} {output : OperationOutput}

def seenMap (step : Step β) (maps : Maps) : Text → Option (Entry step.1.file) :=
  if step.2.read = .printed then maps step.1.file else fun _ => none

theorem Mirrors.seen (h : Mirrors u files maps) :
    (format step.1.file).Mirrors (seen u step.2 (files step.1.file)) (seenMap step maps) := by
  rw [Grimoire.seen, seenMap]
  split_ifs
  · exact h step.1.file
  · exact (format step.1.file).mirrors_nil

theorem informed_iff : Informed step maps ↔ ∀ k,
    step.1.edit.Touches (format step.1.file).key k ∨ seenMap step maps k = maps step.1.file k := by
  rw [Informed, seenMap]
  split_ifs with hread
  · simp [hread]
  · simp [hread, eq_comm]

theorem perform_eq_ok (h : (perform u step files).1 = .ok output) :
    (format step.1.file).MaySet step.1.edit ∧ (perform u step files).2 =
      update files step.1.file (some (u.encode
        ((format step.1.file).after step.1.edit (seen u step.2 (files step.1.file))))) := by
  obtain ⟨hset, hfile⟩ := run_eq_ok (Prod.ext h rfl : step.1.run u step.2 (files step.1.file) =
    (.ok output, (step.1.run u step.2 (files step.1.file)).2))
  exact ⟨hset, by rw [perform, hfile]⟩

theorem text_perform (h : (perform u step files).1 = .ok output) :
    text u ((perform u step files).2 step.1.file) =
      (format step.1.file).after step.1.edit (seen u step.2 (files step.1.file)) := by
  rw [(perform_eq_ok h).2, update_self]
  exact u.decodeLossy_encode _

theorem Mirrors.perform (hmirrors : Mirrors u files maps)
    (h : (perform u step files).1 = .ok output) (htidy : step.1.Tidy)
    (hinformed : Informed step maps) :
    Mirrors u (Grimoire.perform u step files).2 (step.1.onMaps maps) := by
  have hset := (perform_eq_ok h).1
  have hafter := hmirrors.seen.after hset ((keeps_iff_tidy hset).2 htidy)
  have hmap : step.1.edit.onMap (format step.1.file).key (seenMap step maps) =
      step.1.edit.onMap (format step.1.file).key (maps step.1.file) :=
    funext fun k => step.1.edit.onMap_eq_iff.2 (informed_iff.1 hinformed k)
  intro file
  by_cases hfile : file = step.1.file
  · subst hfile
    rwa [text_perform h, Operation.onMaps, update_self, ← hmap]
  · rw [(perform_eq_ok h).2, Operation.onMaps, update_of_ne hfile, update_of_ne hfile]
    exact hmirrors file

theorem Mirrors.reads_iff (hmirrors : Mirrors u files maps)
    (h : (Grimoire.perform u step files).1 = .ok output) :
    Reads u (Grimoire.perform u step files).2 (step.1.onMaps maps) ↔
      step.1.Tidy ∧ Informed step maps := by
  constructor
  · intro hreads
    have hfile := hreads step.1.file
    rw [text_perform h, Operation.onMaps, update_self] at hfile
    have hset := (perform_eq_ok h).1
    obtain ⟨hkeeps, hsame⟩ := (hmirrors.seen.readsAs_after_iff hset).1 hfile
    exact ⟨(keeps_iff_tidy hset).1 hkeeps, informed_iff.2 hsame⟩
  · rintro ⟨htidy, hinformed⟩ file
    exact (hmirrors.perform h htidy hinformed file).readsAs

end Step

theorem afterSteps_append (u : Utf8 β) (done : List (Step β)) (step : Step β) :
    afterSteps u (done ++ [step]) = (perform u step (afterSteps u done)).2 := by
  rw [afterSteps, foldl_concat]
  rfl

theorem built_append (done : List (Step β)) (step : Step β) :
    built (done ++ [step]) = step.1.onMaps (built done) := by
  rw [built, foldl_concat]
  rfl

variable {steps : List (Step β)}

theorem mirrors_afterSteps {done : List (Step β)} (h : Accepted u steps) (hdone : done <+: steps)
    (hsteps : ∀ before step, before ++ [step] <+: done →
      Mirrors u (afterSteps u before) (built before) → step.1.Tidy ∧ Informed step (built before)) :
    Mirrors u (afterSteps u done) (built done) := by
  induction done using reverseRecOn with
  | nil => exact mirrors_init u
  | append_singleton done step ih =>
    have hmirrors := ih ((prefix_append _ _).trans hdone) fun before s hs =>
      hsteps before s (hs.trans (prefix_append _ _))
    obtain ⟨htidy, hinformed⟩ := hsteps done step prefix_rfl hmirrors
    obtain ⟨output, hok⟩ := h done step hdone
    rw [afterSteps_append, built_append]
    exact hmirrors.perform hok htidy hinformed

/-- The files are read after each accepted operation as the maps that the operations build, exactly
if each is tidy and read its file, or had no other entry to lose. -/
theorem reads_iff_tidy (u : Utf8 β) {steps : List (Step β)} (h : Accepted u steps) :
    (∀ done, done <+: steps → Reads u (afterSteps u done) (built done)) ↔
      ∀ done step, done ++ [step] <+: steps → step.1.Tidy ∧ Informed step (built done) := by
  constructor
  · intro hreads
    -- an operation after which the files are read as the maps was tidy and read its file
    have hstep : ∀ done step, done ++ [step] <+: steps →
        Mirrors u (afterSteps u done) (built done) → step.1.Tidy ∧ Informed step (built done) := by
      intro done step hdone hmirrors
      obtain ⟨_, hok⟩ := h done step hdone
      have hafter := hreads _ hdone
      rw [afterSteps_append, built_append] at hafter
      exact (hmirrors.reads_iff hok).1 hafter
    intro done step hdone
    refine hstep done step hdone ?_
    exact mirrors_afterSteps h ((prefix_append _ _).trans hdone) fun before s hs =>
      hstep before s (hs.trans ((prefix_append _ _).trans hdone))
  · intro hsteps done hdone file
    exact (mirrors_afterSteps h hdone (fun before s hs _ => hsteps before s (hs.trans hdone))
      file).readsAs

theorem accepted_of_forall
    (h : ∀ step ∈ steps, ∀ files, ∃ output, (perform u step files).1 = .ok output) :
    Accepted u steps :=
  fun _ step hdone => h step (hdone.subset (by simp)) _

def wellEnded : Answers Text where
  read := .printed
  mkdir := .ok ⟨[], [], some 0⟩
  write := .written ⟨[], [], some 0⟩
  apply := .ok ⟨[], [], some 0⟩

def trimJob : CronJob :=
  ⟨"trim", "@weekly", "root", "fstrim -a"⟩

def echoJob : CronJob :=
  ⟨"echo", "0 3 * * *", "root", "echo 'a  b'"⟩

def trimSteps : List (Step Text) :=
  [(.setCronJob trimJob, wellEnded), (.blacklistModule "usb_storage", wellEnded),
    (.removeCronJob "trim", wellEnded)]

theorem reads_iff_tidy_trimSteps :
    Accepted plainUtf8 trimSteps ∧
      Reads plainUtf8 (afterSteps plainUtf8 trimSteps) (built trimSteps) := by
  have haccepted : Accepted plainUtf8 trimSteps := by
    refine accepted_of_forall fun step hstep files => ?_
    simp only [trimSteps, mem_cons, not_mem_nil, or_false] at hstep
    rcases hstep with rfl | rfl | rfl
    all_goals exact ⟨_, rfl⟩
  refine ⟨haccepted, (reads_iff_tidy plainUtf8 haccepted).2 ?_ _ prefix_rfl⟩
  intro done step hdone
  have hstep : step ∈ trimSteps := hdone.subset (by simp)
  simp only [trimSteps, mem_cons, not_mem_nil, or_false] at hstep
  rcases hstep with rfl | rfl | rfl
  · exact ⟨show trimJob.Tidy by decide, .inl rfl⟩
  · exact ⟨trivial, .inl rfl⟩
  · exact ⟨trivial, .inl rfl⟩

/-- After a second task is set, the first is no longer the one that was set. -/
theorem not_reads_of_echoJob :
    Accepted plainUtf8 [(.setCronJob echoJob, wellEnded), (.setCronJob trimJob, wellEnded)] ∧
      ¬ Reads plainUtf8
        (afterSteps plainUtf8 [(.setCronJob echoJob, wellEnded), (.setCronJob trimJob, wellEnded)])
        (built [(.setCronJob echoJob, wellEnded), (.setCronJob trimJob, wellEnded)]) := by
  constructor
  · refine accepted_of_forall ?_
    intro step hstep files
    rcases mem_pair.1 hstep with rfl | rfl
    · exact ⟨_, rfl⟩
    · exact ⟨_, rfl⟩
  · intro hreads
    have hecho := hreads .cron echoJob.name
    cases show (parseCron _).find? _ = some echoJob from hecho

end Abyssal.Agent.Grimoire
