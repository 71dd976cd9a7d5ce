import Abyssal.Agent.Validators
import Abyssal.Table.EntryFile

/-!
# The files of Grimoire

Each of the four files has a function that reads it into a list of entries and one that renders the
entries. Values of kernel parameters are trimmed when they are read. The line of a scheduled task is
cut into words, and what follows the schedule is joined with single spaces.
-/

namespace Abyssal.Agent.Grimoire

open Text List

inductive JournaldSetting where
  | systemMaxUse
  | systemKeepFree
  | maxRetentionSec
  | maxFileSec
  deriving DecidableEq

def JournaldSetting.key : JournaldSetting → Text
  | .systemMaxUse => "SystemMaxUse"
  | .systemKeepFree => "SystemKeepFree"
  | .maxRetentionSec => "MaxRetentionSec"
  | .maxFileSec => "MaxFileSec"

/-! ### Kernel parameters and the journal -/

def headerLine : Text :=
  "# Managed by Abyssal Arsenal (Grimoire) -- do not edit manually"

/-- What `parse_sysctl` and `parse_journald` read of a line. They differ in the marks of a comment.
-/
def readPair (skipped : Text) (line : Text) : Option (Text × Text) :=
  let line := trim line
  if line = [] ∨ line.head?.any skipped.contains = true then none
  else (splitOnce '=' line).map fun pair => (trim pair.1, trim pair.2)

def sysctlHeader : Text := headerLine ++ ['\n']

def sysctlLine (entry : Text × Text) : Text := entry.1 ++ " = " ++ entry.2

variable (content : Text)

def parseSysctl : List (Text × Text) :=
  (lines content).filterMap (readPair ['#'])

def renderSysctl (entries : List (Text × Text)) : Text :=
  sysctlHeader ++ entries.flatMap fun entry => sysctlLine entry ++ ['\n']

def journaldHeader : Text := headerLine ++ ['\n']

def journaldLine (entry : Text × Text) : Text := entry.1 ++ "=" ++ entry.2

def parseJournald : List (Text × Text) :=
  (lines content).filterMap (readPair ['#', '['])

def renderJournald (entries : List (Text × Text)) : Text :=
  journaldHeader ++ "[Journal]\n" ++
    entries.flatMap fun entry => journaldLine entry ++ ['\n']

/-! ### Kernel modules -/

def modprobeHeader : Text := headerLine ++ ['\n']

def blacklistLine (module : Text) : Text := "blacklist " ++ module

def parseBlacklist : List Text :=
  ((lines content).filterMap fun line =>
    ("blacklist ".toList.isPrefixOf? (trim line)).map trim).filter (· ≠ [])

def renderBlacklist (modules : List Text) : Text :=
  modprobeHeader ++ modules.flatMap fun m => blacklistLine m ++ ['\n']

/-! ### Scheduled tasks -/

structure CronJob where
  name : Text
  schedule : Text
  user : Text
  command : Text

def cronJobMarker : Text := "# abyssal-arsenal-job: "

def cronHeader : Text := headerLine ++ "\nSHELL=/bin/sh\n\n"

def readCronJob (name : Text) : List Text → Option CronJob
  | [] => none
  | first :: rest =>
    let tokens := first :: rest
    let fieldCount := if first.head? = some '@' then 1 else 5
    if tokens.length < fieldCount + 2 then none
    else
      some {
        name
        schedule := unwords (tokens.take fieldCount)
        user := tokens.getD fieldCount []
        command := unwords (tokens.drop (fieldCount + 1)) }

/-- The loop of `parse_cron`, with the name that waits for its line. -/
def parseCronLoop : Option Text → List Text → List CronJob
  | _, [] => []
  | pendingName, line :: rest =>
    let line := trim line
    match cronJobMarker.isPrefixOf? line with
    | some name => parseCronLoop (some (trim name)) rest
    | none =>
      if line = [] ∨ line.head? = some '#' then parseCronLoop pendingName rest
      else
        match pendingName with
        | none => parseCronLoop none rest
        | some name => (readCronJob name (words line)).toList ++ parseCronLoop none rest

def parseCron : List CronJob := parseCronLoop none (lines content)

def CronJob.line (job : CronJob) : Text :=
  job.schedule ++ ' ' :: (job.user ++ ' ' :: job.command)

def renderCron (jobs : List CronJob) : Text :=
  cronHeader ++ jobs.flatMap fun job =>
    cronJobMarker ++ job.name ++ ['\n'] ++ job.line ++ ['\n', '\n']

/-! ### Reading what was rendered: parameters and the journal -/

theorem readPair_append {skipped key pad value : Text} (hne : key ≠ []) (hkey : Graphic key)
    (heq : '=' ∉ key) (hskipped : ∀ c ∈ skipped, c ∉ key) (hpad : ∀ c ∈ pad, isWhitespace c) :
    readPair skipped (key ++ pad ++ '=' :: value) = some (key, trim value) := by
  obtain ⟨c, key, rfl⟩ := exists_cons_of_ne_nil hne
  have hc : isWhitespace c = false := isWhitespace_of_isAsciiGraphic (hkey c mem_cons_self)
  have hhead : (trim (c :: key ++ (pad ++ '=' :: value))).head? = some c := by
    rw [head?_trim, cons_append, find?_cons_of_pos (by simp [hc])]
  have hskip : ¬ (trim (c :: key ++ (pad ++ '=' :: value)) = [] ∨
      (trim (c :: key ++ (pad ++ '=' :: value))).head?.any skipped.contains) := by
    rw [hhead]
    rintro (h | h)
    · rw [h] at hhead
      cases hhead
    · have hmem : c ∈ skipped := by simpa using h
      exact hskipped c hmem mem_cons_self
  rw [readPair, append_assoc]
  simp only [if_neg hskip]
  exact keyValue_append (forall_mem_nil _) hc hkey.trim heq hpad value

def SettableSysctl (entry : Text × Text) : Prop :=
  isValidSysctlKey entry.1 = true ∧ isValidSysctlValue entry.2 = true

def SettableJournald (entry : Text × Text) : Prop :=
  (∃ setting : JournaldSetting, entry.1 = setting.key) ∧ isValidJournaldValue entry.2 = true

variable {entry : Text × Text}

theorem readSysctl_sysctlLine (h : SettableSysctl entry) :
    readPair ['#'] (sysctlLine entry) = some (entry.1, trim entry.2) := by
  have hkey := h.1
  simp only [isValidSysctlKey, Bool.and_eq_true, decide_eq_true_eq] at hkey
  obtain ⟨⟨⟨hne, -⟩, -⟩, hchars⟩ := hkey
  have hgraphic : Graphic entry.1 := graphic_of_alphanumericOr (by decide) hchars
  have hline : sysctlLine entry = entry.1 ++ [' '] ++ '=' :: ' ' :: entry.2 := by
    simp [sysctlLine]
  rw [hline]
  exact readPair_append hne hgraphic (not_mem_of_alphanumericOr hchars rfl (by decide))
    (forall_mem_singleton.2 (not_mem_of_alphanumericOr hchars rfl (by decide)))
    (forall_mem_singleton.2 rfl)

private theorem oneLine_sysctlLine (h : SettableSysctl entry) : OneLine (sysctlLine entry) := by
  obtain ⟨hkey, hvalue⟩ := h
  simp only [isValidSysctlKey, isValidSysctlValue, Bool.and_eq_true, decide_eq_true_eq,
    all_eq_true, Bool.not_eq_true'] at hkey hvalue
  have hgraphic : Graphic entry.1 := graphic_of_alphanumericOr (by decide) hkey.2
  exact (hgraphic.oneLine.append (by decide)).append (oneLine_of_forall hvalue.2)

variable {entries : List (Text × Text)}

theorem parseSysctl_renderSysctl (h : ∀ entry ∈ entries, SettableSysctl entry) :
    parseSysctl (renderSysctl entries) =
      entries.filterMap fun entry => readPair ['#'] (sysctlLine entry) := by
  have hrender : renderSysctl entries = unlines ([headerLine] ++ entries.map sysctlLine) := by
    rw [unlines_append, unlines_map]
    rfl
  rw [hrender]
  exact filterMap_lines_unlines (by decide) (by decide) fun e he => oneLine_sysctlLine (h e he)

theorem SettableJournald.graphic (h : SettableJournald entry) : Graphic entry.2 := by
  have hvalue := h.2
  simp only [isValidJournaldValue, Bool.and_eq_true, decide_eq_true_eq] at hvalue
  exact graphic_of_alphanumericOr (by decide) hvalue.2

theorem readJournald_journaldLine (h : SettableJournald entry) :
    readPair ['#', '['] (journaldLine entry) = some entry := by
  obtain ⟨setting, hkey⟩ := h.1
  have hline : journaldLine entry = entry.1 ++ [] ++ '=' :: entry.2 := by simp [journaldLine]
  have hread : readPair ['#', '['] (journaldLine entry) = some (entry.1, trim entry.2) := by
    rw [hline, hkey]
    refine readPair_append ?_ ?_ ?_ (forall_mem_cons.2 ⟨?_, forall_mem_singleton.2 ?_⟩)
      (by simp)
    all_goals
      cases setting
      all_goals decide
  rw [hread, h.graphic.trim]

theorem oneLine_journaldLine (h : SettableJournald entry) : OneLine (journaldLine entry) := by
  obtain ⟨setting, hkey⟩ := h.1
  have hone : OneLine entry.1 := by
    rw [hkey]
    cases setting
    all_goals decide
  exact (hone.append (by decide)).append h.graphic.oneLine

theorem parseJournald_renderJournald (h : ∀ entry ∈ entries, SettableJournald entry) :
    parseJournald (renderJournald entries) =
      entries.filterMap fun entry => readPair ['#', '['] (journaldLine entry) := by
  have hrender : renderJournald entries =
      unlines ([headerLine, "[Journal]"] ++ entries.map journaldLine) := by
    rw [unlines_append, unlines_map]
    rfl
  rw [hrender]
  exact filterMap_lines_unlines (by decide) (by decide) fun e he => oneLine_journaldLine (h e he)

/-! ### Reading what was rendered: kernel modules -/

def readBlacklist (line : Text) : Option Text :=
  (("blacklist ".toList.isPrefixOf? (trim line)).map trim).filter (· ≠ [])

theorem parseBlacklist_eq : parseBlacklist content = (lines content).filterMap readBlacklist := by
  rw [parseBlacklist, filter_filterMap]
  rfl

theorem readBlacklist_blacklistLine {m : Text} (h : isValidKernelModuleName m) :
    readBlacklist (blacklistLine m) = some m := by
  obtain ⟨hne, hgraphic⟩ := graphic_of_isValidKernelModuleName h
  have htrim : trim (blacklistLine m) = "blacklist " ++ m := hgraphic.trim_append hne rfl
  rw [readBlacklist, htrim, isPrefixOf?_append, Option.map_some, hgraphic.trim]
  simp [hne]

theorem parseBlacklist_renderBlacklist {modules : List Text}
    (h : ∀ m ∈ modules, isValidKernelModuleName m) :
    parseBlacklist (renderBlacklist modules) =
      modules.filterMap fun m => readBlacklist (blacklistLine m) := by
  have hrender : renderBlacklist modules = unlines ([headerLine] ++ modules.map blacklistLine) := by
    rw [unlines_append, unlines_map]
    rfl
  rw [parseBlacklist_eq, hrender]
  refine filterMap_lines_unlines (by decide) (by decide) fun m hm => ?_
  have hone : OneLine "blacklist " := by decide
  exact hone.append (graphic_of_isValidKernelModuleName (h m hm)).2.oneLine

/-! ### Reading what was rendered: scheduled tasks -/

def SettableCron (job : CronJob) : Prop :=
  isValidAccountName job.name = true ∧ isValidCronSchedule job.schedule = true ∧
    isValidAccountName job.user = true ∧ isValidCronCommand job.command = true

/-- The schedule is a nickname, or five words, and the command is words, with single spaces between
them. -/
def CronJob.Tidy (job : CronJob) : Prop :=
  (job.schedule.head? = some '@' ∨
      SingleSpaced job.schedule ∧ (words job.schedule).length = 5) ∧
    SingleSpaced job.command

instance (job : CronJob) : Decidable job.Tidy :=
  inferInstanceAs (Decidable ((_ ∨ _ ∧ _) ∧ _))

def CronJob.reading (job : CronJob) : Option CronJob := readCronJob job.name (words job.line)

theorem cases_of_isValidCronSchedule {schedule : Text} (h : isValidCronSchedule schedule) :
    (schedule.head? = some '@' ∧ '#' ∉ schedule ∧ Graphic schedule) ∨
      alphanumericOr ['*', '/', ',', '-', ' '] schedule := by
  rw [isValidCronSchedule] at h
  split_ifs at h
  split at h
  · next rest hat =>
    obtain rfl := isPrefixOf?_eq_some_iff_append_eq.1 hat
    have hnames : ∀ name ∈ nicknames, '#' ∉ "@" ++ name ∧ Graphic ("@" ++ name) := by
      decide
    exact .inl ⟨rfl, hnames rest (by simpa using h)⟩
  · exact .inr h

open CronJob

variable {job : CronJob}

theorem words_line (h : SettableCron job) :
    words job.line = words job.schedule ++ job.user :: words job.command := by
  obtain ⟨hne, hgraphic⟩ := graphic_of_isValidAccountName h.2.2.1
  rw [line, words_append_cons rfl, words_append_cons rfl, words_of_isWord (hgraphic.isWord hne)]
  rfl

private theorem command_ne_nil (h : SettableCron job) : job.command ≠ [] := by
  have hcommand := h.2.2.2
  simp only [isValidCronCommand, Bool.and_eq_true, decide_eq_true_eq] at hcommand
  exact hcommand.1.1

theorem words_command_ne_nil (h : SettableCron job)
    (hcommand : unwords (words job.command) = job.command) : words job.command ≠ [] := by
  intro hnil
  rw [hnil] at hcommand
  exact command_ne_nil h hcommand.symm

variable {name : Text}

theorem readCronJob_append {user : Text} {before after : List Text}
    (hcount : before.length = if before.head?.any (·.head? = some '@') then 1 else 5)
    (hafter : after ≠ []) :
    readCronJob name (before ++ user :: after) =
      some ⟨name, unwords before, user, unwords after⟩ := by
  have hne : before ≠ [] := by
    rintro rfl
    cases hcount
  obtain ⟨first, rest, rfl⟩ := exists_cons_of_ne_nil hne
  have hfields : (if first.head? = some '@' then 1 else 5) = (first :: rest).length := by
    rw [hcount]
    simp
  have hlong : ¬ (first :: (rest ++ user :: after)).length < (first :: rest).length + 2 := by
    have hpos := length_pos_iff.2 hafter
    simp only [length_cons, length_append]
    omega
  rw [cons_append, readCronJob]
  simp only [hfields]
  rw [if_neg hlong]
  have htokens : first :: (rest ++ user :: after) = (first :: rest) ++ user :: after := rfl
  rw [htokens, ← drop_drop]
  simp

/-- Whether a word begins with an at sign, as a nickname does. -/
def AtSign (tokens : List Text) : Prop := tokens.head?.any (·.head? = some '@') = true

theorem parts_of_readCronJob {tokens : List Text} (h : readCronJob name tokens = some job) :
    job.name = name ∧ ∃ n, (n = 1 ∧ AtSign tokens ∨ n = 5) ∧ n + 2 ≤ tokens.length ∧
      job.schedule = unwords (tokens.take n) ∧ job.command = unwords (tokens.drop (n + 1)) := by
  cases tokens with
  | nil => cases h
  | cons first =>
    rw [readCronJob] at h
    generalize hn : (if first.head? = some '@' then 1 else 5) = n at h
    split_ifs at h with hlong
    cases h
    refine ⟨rfl, n, ?_, Nat.le_of_not_lt hlong, rfl, rfl⟩
    split_ifs at hn with hat
    · exact .inl ⟨hn.symm, by simp [AtSign, hat]⟩
    · exact .inr hn.symm

theorem tidy_of_reading (h : SettableCron job) (hreading : job.reading = some job) : job.Tidy := by
  rw [reading, words_line h] at hreading
  obtain ⟨-, n, hn, hlong, hschedule, hcommand⟩ := parts_of_readCronJob hreading
  obtain ⟨huser, hgraphic⟩ := graphic_of_isValidAccountName h.2.2.1
  have hwords : ∀ w ∈ words job.schedule ++ job.user :: words job.command, IsWord w := by
    intro w hw
    rcases mem_append.1 hw with hw | hw
    · exact isWord_of_mem_words hw
    · rcases mem_cons.1 hw with rfl | hw
      · exact hgraphic.isWord huser
      · exact isWord_of_mem_words hw
  -- the words of the schedule are the words that were taken for it
  have htake : words job.schedule =
      (words job.schedule ++ job.user :: words job.command).take n := by
    conv_lhs => rw [hschedule]
    exact words_unwords fun w hw => hwords w (mem_of_mem_take hw)
  have hlength : (words job.schedule).length = n := by
    have htaken := congrArg length htake
    rwa [length_take_of_le (by omega)] at htaken
  have hdrop : (words job.schedule ++ job.user :: words job.command).drop (n + 1) =
      words job.command := by
    rw [← hlength, ← drop_drop, drop_left]
    rfl
  have hsingle : SingleSpaced job.schedule := by
    rw [SingleSpaced, htake, ← hschedule]
  refine ⟨?_, by rw [SingleSpaced, ← hdrop, ← hcommand]⟩
  rcases hn with ⟨rfl, hat⟩ | rfl
  · obtain ⟨w, hw⟩ := length_eq_one_iff.1 hlength
    have hword : IsWord w := isWord_of_mem_words (hw ▸ mem_singleton_self w)
    rw [hw] at hat
    rw [SingleSpaced, hw] at hsingle
    rw [← hsingle, head?_unwords hword.1]
    exact .inl (by simpa [AtSign] using hat)
  · exact .inr ⟨hsingle, hlength⟩

theorem reading_of_tidy (h : SettableCron job) (htidy : job.Tidy) : job.reading = some job := by
  obtain ⟨hschedule, hcommand⟩ := htidy
  have hafter := words_command_ne_nil h hcommand
  rw [reading, words_line h]
  rcases cases_of_isValidCronSchedule h.2.1 with ⟨hat, -, hgraphic⟩ | hfields
  · -- a nickname is one word
    have hne : job.schedule ≠ [] := fun hnil => by simp [hnil] at hat
    have hwords := words_of_isWord (hgraphic.isWord hne)
    rw [hwords, readCronJob_append (by simp [hat]) hafter, hcommand, unwords, intercalate_singleton]
  · have hnot : '@' ∉ job.schedule := not_mem_of_alphanumericOr hfields rfl (by decide)
    obtain ⟨hsingle, hlength⟩ := hschedule.resolve_left fun hat => hnot (mem_of_head? hat)
    have hcount : (words job.schedule).length =
        if (words job.schedule).head?.any (·.head? = some '@') then 1 else 5 := by
      rw [hlength, if_neg]
      cases hwords : words job.schedule with
      | nil => simp
      | cons w =>
        have hword : IsWord w := isWord_of_mem_words (hwords ▸ mem_cons_self)
        rw [SingleSpaced, hwords] at hsingle
        intro hat
        refine hnot (mem_of_head? ?_)
        rw [← hsingle, head?_unwords hword.1]
        simpa using hat
    rw [readCronJob_append hcount hafter, hsingle, hcommand]

theorem reading_eq_iff_tidy (h : SettableCron job) : job.reading = some job ↔ job.Tidy :=
  ⟨tidy_of_reading h, reading_of_tidy h⟩

theorem name_of_reading {job' : CronJob} (h : job.reading = some job') : job'.name = job.name :=
  (parts_of_readCronJob h).1

/-! #### The loop -/

private theorem hash_not_mem_schedule (h : SettableCron job) : '#' ∉ job.schedule := by
  rcases cases_of_isValidCronSchedule h.2.1 with ⟨-, hhash, -⟩ | hfields
  · exact hhash
  · exact not_mem_of_alphanumericOr hfields rfl (by decide)

theorem head?_trim_line (h : SettableCron job) : ∃ c, (trim job.line).head? = some c ∧ c ≠ '#' := by
  have huser := h.2.2.1
  obtain ⟨hne, hgraphic⟩ := graphic_of_isValidAccountName huser
  obtain ⟨d, rest, hcons⟩ := exists_cons_of_ne_nil hne
  have hd : isWhitespace d = false :=
    isWhitespace_of_isAsciiGraphic (hgraphic d (hcons ▸ mem_cons_self))
  rw [head?_trim, line, hcons, find?_append]
  cases hfind : job.schedule.find? fun c => !isWhitespace c with
  | some c =>
    refine ⟨c, rfl, ?_⟩
    rintro rfl
    exact hash_not_mem_schedule h (mem_of_find?_eq_some hfind)
  | none =>
    refine ⟨d, by simp [hd, show isWhitespace ' ' from rfl], ?_⟩
    rintro rfl
    rw [hcons] at huser
    simp [isValidAccountName, show isAsciiLowercase '#' = false from rfl] at huser

def CronJob.block (job : CronJob) : List Text := [cronJobMarker ++ job.name, job.line, []]

private theorem trim_marker (h : isValidAccountName name) :
    trim (cronJobMarker ++ name) = cronJobMarker ++ name := by
  obtain ⟨hne, hgraphic⟩ := graphic_of_isValidAccountName h
  exact hgraphic.trim_append hne rfl

private theorem parseCronLoop_block (h : SettableCron job) (rest : List Text) :
    parseCronLoop none (job.block ++ rest) = job.reading.toList ++ parseCronLoop none rest := by
  obtain ⟨_, hhead, hc⟩ := head?_trim_line h
  have hname := (graphic_of_isValidAccountName h.1).2
  have hmarker : cronJobMarker.isPrefixOf? (trim job.line) = none := by
    rw [Option.eq_none_iff_forall_ne_some]
    intro rest' hrest
    rw [← isPrefixOf?_eq_some_iff_append_eq.1 hrest] at hhead
    exact hc (Option.some.inj hhead).symm
  have hskip : ¬ (trim job.line = [] ∨ (trim job.line).head? = some '#') := by
    rw [hhead]
    rintro (hnil | hhash)
    · rw [hnil] at hhead
      cases hhead
    · exact hc (Option.some.inj hhash)
  have hfirst : parseCronLoop none (job.block ++ rest) =
      parseCronLoop (some job.name) (job.line :: [] :: rest) := by
    rw [block, cons_append, parseCronLoop]
    simp only [trim_marker h.1, isPrefixOf?_append, hname.trim]
    rfl
  rw [hfirst, parseCronLoop]
  simp only [hmarker, if_neg hskip, words_trim]
  rfl

variable {jobs : List CronJob}

private theorem parseCronLoop_blocks (h : ∀ job ∈ jobs, SettableCron job) :
    parseCronLoop none (jobs.flatMap block) = jobs.filterMap reading := by
  induction jobs with
  | nil => rfl
  | cons job _ ih =>
    rw [flatMap_cons, parseCronLoop_block (h job mem_cons_self),
      ih fun j hj => h j (mem_cons_of_mem _ hj), filterMap_cons]
    cases job.reading with
    | none | some => rfl

private theorem oneLine_block (h : SettableCron job) : ∀ l ∈ job.block, OneLine l := by
  have hcommand := h.2.2.2
  simp only [isValidCronCommand, Bool.and_eq_true, all_eq_true, Bool.not_eq_true'] at hcommand
  have hmarker : OneLine cronJobMarker := by decide
  have hspace : OneLine [' '] := by decide
  have hschedule : OneLine job.schedule := by
    rcases cases_of_isValidCronSchedule h.2.1 with ⟨-, -, hgraphic⟩ | hfields
    · exact hgraphic.oneLine
    · exact ⟨not_mem_of_alphanumericOr hfields rfl (by decide),
        not_mem_of_alphanumericOr hfields rfl (by decide)⟩
  have hline : OneLine job.line :=
    hschedule.append (hspace.append ((graphic_of_isValidAccountName h.2.2.1).2.oneLine.append
      (hspace.append (oneLine_of_forall hcommand.2))))
  intro l hl
  simp only [block, mem_cons, not_mem_nil, or_false] at hl
  rcases hl with rfl | rfl | rfl
  · exact hmarker.append (graphic_of_isValidAccountName h.1).2.oneLine
  · exact hline
  · decide

theorem parseCron_renderCron (h : ∀ job ∈ jobs, SettableCron job) :
    parseCron (renderCron jobs) = jobs.filterMap reading := by
  have hblocks : unlines (jobs.flatMap block) = jobs.flatMap fun job =>
      cronJobMarker ++ job.name ++ ['\n'] ++ job.line ++ ['\n', '\n'] := by
    rw [unlines, flatMap_assoc]
    refine flatMap_congr fun job _ => ?_
    simp [block]
  have hrender : renderCron jobs =
      unlines ([headerLine, "SHELL=/bin/sh", []] ++ jobs.flatMap block) := by
    rw [unlines_append, hblocks]
    rfl
  have hone : ∀ l ∈ [headerLine, "SHELL=/bin/sh", []] ++ jobs.flatMap block, OneLine l := by
    intro l hl
    rcases mem_append.1 hl with hl | hl
    · exact (show ∀ l ∈ [headerLine, "SHELL=/bin/sh", []], OneLine l by decide) l hl
    · obtain ⟨job, hjob, hl⟩ := mem_flatMap.1 hl
      exact oneLine_block (h job hjob) l hl
  rw [parseCron, hrender, lines_unlines hone, ← parseCronLoop_blocks h]
  rfl

end Abyssal.Agent.Grimoire
