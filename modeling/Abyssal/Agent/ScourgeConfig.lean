import Abyssal.Agent.ManagedFile
import Abyssal.Text.Layout

/-!
# Editing the configuration of the sensor

`apply_config` writes an override file and a line of the main configuration that includes it, and
three operations keep a line for a rule in a list of their own. A `cat` that fails counts as an
empty file, and the results of the writes that restore the files are discarded. Lines are compared
without the white space around them, and blank ones do not count.

## Main results

* `safe_iff_faithful`: when a failure does no harm.
-/

namespace Abyssal.Agent.Scourge

open Text
open List hiding splitOn splitOn_ne_nil

def managedHeader : Text :=
  "# Managed by Abyssal Arsenal (Scourge) -- do not edit by hand."

def overrideInclude : Text := "scourge.d/overrides.yaml"

inductive Failure
  | noEngine
  | rejected (message : String)
  | unread
  | unwritten (file error : String)
  | notIncluded (error : String)
  | appliedOnly (error : String)
  | notReloaded (error : String)
  | invalid (error restored : String)

def noEngineMessage : String :=
  "No IDS/IPS engine detected (checked for Suricata's config, state dir, and binary). " ++
    "Install one via Apothecary first."

/-- What the message says besides the error that it hands on. -/
def Failure.words : Failure → String
  | noEngine => noEngineMessage
  | rejected _ => ""
  | unread => "cannot read /etc/suricata/suricata.yaml (is the sensor installed?)"
  | unwritten _ _ => "failed to write "
  | notIncluded _ => "failed to add include to main config: "
  | appliedOnly _ => "applied, but reload failed: "
  | notReloaded _ => "reload failed after applying config; restored the previous config: "
  | invalid _ _ => "\nRestored the previous "

def Failure.saysNotRestored (failure : Failure) : Bool := Agent.saysNotRestored failure.words.toList

theorem or_saysNotRestored_iff {p : Prop} (failure : Failure) :
    p ∨ failure.saysNotRestored = true ↔ p := by
  have hsilent : failure.saysNotRestored = false := by
    cases failure
    all_goals
      rewrite [Failure.saysNotRestored, Failure.words]
      decide +kernel
  rw [hsilent]
  exact or_iff_left Bool.false_ne_true

variable {β : Type*} (u : Utf8 β)

def readManaged (file : Option β) (answer : CatAnswer) : Text :=
  match readManagedFile u file answer with
  | .ok text => text
  | .error _ => []

/-! ### A line for a rule -/

/-- How the programs end that an edit of one list runs. -/
structure Answers (β : Type*) where
  read : CatAnswer
  write : TeeAnswer β
  validate : Except String Unit
  reload : Except String Unit
  restore : TeeAnswer β

/-- The line of the rule and whether it is to be there, the lines taken out before, and those that
Scourge keeps for the rule. -/
structure SidEdit where
  line : Text
  present : Bool
  drops : Text → Bool
  manages : Text → Bool
  file : String
  restored : String
  oneLine : '\n' ∉ line
  managed : present = true → manages (trim line) = true
  header : manages managedHeader = false

theorem header_ne_trim {line : Text} (h : '#' ∉ line) : managedHeader ≠ trim line := by
  intro heq
  have hmem : '#' ∈ trim line := heq ▸ mem_cons_self
  exact h ((mem_trim_iff (by decide)).1 hmem)

variable {c : Char}

theorem not_mem_around (hc : isAsciiDigit c = false) {before after : Text} (sid : ℕ)
    (hbefore : c ∉ before) (hafter : c ∉ after) : c ∉ before ++ ofNat sid ++ after := by
  simp only [mem_append, not_or]
  exact ⟨⟨hbefore, not_mem_ofNat hc sid⟩, hafter⟩

def setSidEnabled (sid : ℕ) (enabled : Bool) : SidEdit where
  line := ofNat sid
  present := !enabled
  drops l := trim l = ofNat sid
  manages l := l = trim (ofNat sid)
  file := "disable list"
  restored := "disable list"
  oneLine := not_mem_ofNat rfl sid
  managed _ := decide_eq_true rfl
  header := decide_eq_false (header_ne_trim (not_mem_ofNat rfl sid))

def suppressSid (sid : ℕ) (suppress : Bool) : SidEdit where
  line := "suppress gen_id 1, sig_id ".toList ++ ofNat sid ++ []
  present := suppress
  drops l := trim l = "suppress gen_id 1, sig_id ".toList ++ ofNat sid ++ []
  manages l := l = trim ("suppress gen_id 1, sig_id ".toList ++ ofNat sid ++ [])
  file := "threshold file"
  restored := "threshold file"
  oneLine := not_mem_around rfl sid (by decide) (by decide)
  managed _ := decide_eq_true rfl
  header := decide_eq_false (header_ne_trim (not_mem_around rfl sid (by decide) (by decide)))

/-- The actions of a rule. Scourge has no line for `alert`. -/
inductive SidAction
  | alert
  | drop
  | reject

def SidAction.name : SidAction → Text
  | alert => "alert"
  | drop => "drop"
  | reject => "reject"

def actionLine (sid : ℕ) (action : SidAction) : Text :=
  [] ++ ofNat sid ++ (" \"^(alert|drop|reject)\" \"".toList ++ action.name ++ "\"".toList)

private theorem not_mem_actionLine (hc : isAsciiDigit c = false) (sid : ℕ) (action : SidAction)
    (h : c ∉ " \"^(alert|drop|reject)\" \"" ++ action.name ++ "\"") : c ∉ actionLine sid action :=
  not_mem_around hc sid not_mem_nil h

def setSidAction (sid : ℕ) (action : SidAction) : SidEdit where
  line := actionLine sid action
  present := match action with
    | .alert => false
    | _ => true
  drops l := (ofNat sid ++ [' ']).isPrefixOf (l.dropWhile isWhitespace)
  manages l := l = trim (actionLine sid .drop) || l = trim (actionLine sid .reject)
  file := "modify list"
  restored := "rule-action overrides"
  oneLine := by
    cases action <;> exact not_mem_actionLine rfl sid _ (by decide)
  managed := by
    cases action <;> simp
  header := Bool.or_eq_false_iff.2
    ⟨decide_eq_false (header_ne_trim (not_mem_actionLine rfl sid _ (by decide))),
      decide_eq_false (header_ne_trim (not_mem_actionLine rfl sid _ (by decide)))⟩

namespace SidEdit

variable (e : SidEdit)

def kept (previous : Text) : List Text :=
  (lines previous).filter (!e.drops ·) ++ if e.present then [e.line] else []

def body (previous : Text) : Text :=
  let header :=
    if (lines previous).any (trim · = managedHeader) then [] else managedHeader ++ ['\n']
  let body := header ++ ['\n'].intercalate (e.kept previous)
  if body.getLast? = some '\n' then body else body ++ ['\n']

def run (answers : Answers β) (file : Option β) : Except Failure Unit × Option β :=
  let previous := readManaged u file answers.read
  match writeManagedFile u (e.body previous) answers.write with
  | (.error error, file) => (.error (.unwritten e.file error), file)
  | (.ok _, file) =>
    match answers.validate, answers.reload with
    | .ok _, .ok _ => (.ok (), file)
    | .ok _, .error error => (.error (.appliedOnly error), file)
    | .error error, _ =>
      (.error (.invalid error e.restored), (writeManagedFile u previous answers.restore).2)

end SidEdit

variable (e : SidEdit)

/-- A line that says something and is not one of the rule's. -/
def SidEdit.foreign (l : Text) : Bool := trim l ≠ [] && !e.manages (trim l)

def SidEdit.others (text : Text) : List Text :=
  ((lines text).filter e.foreign).map trim

def Holds (file : Option β) (text : Text) : Prop :=
  file = some (u.encode text) ∨ file = none ∧ text = []

/-- An error leaves the list or says that it does not; success keeps the lines of others, behind a
header. -/
def SidEdit.Safe (u : Utf8 β) (before : Option β) :
    Except Failure Unit × Option β → Prop
  | (.error failure, after) => after = before ∨ failure.saysNotRestored = true
  | (.ok _, after) => ∃ old new, Holds u before old ∧ after = some (u.encode new) ∧
      (e.others new = e.others old ∨ e.others new = managedHeader :: e.others old)

def Leaves (text : Text) (file : Option β) : TeeAnswer β → Prop
  | .written _ => file = some (u.encode text)
  | .failed _ left => left = file

/-- `cat` printed the list and only lines of the rule are taken out of it; or the list has only such
lines, and the header. -/
def SidEdit.ReadWell (u : Utf8 β) (file : Option β) (answer : CatAnswer) : Prop :=
  ∃ old, Holds u file old ∧
    match answer with
    | .printed => ∀ l ∈ lines old, e.drops l = true → e.foreign l = false
    | _ => e.others old = [] ∨ e.others old = [managedHeader]

/-- A write that fails leaves the list alone, what is written back was there, and what is kept was
read. -/
def SidEdit.Faithful (u : Utf8 β) (answers : Answers β) (file : Option β) : Prop :=
  match answers.write with
  | .failed _ left => left = file
  | .written _ =>
    match answers.validate, answers.reload with
    | .ok _, .ok _ => e.ReadWell u file answers.read
    | .ok _, .error _ => file = some (u.encode (e.body (readManaged u file answers.read)))
    | .error _, _ => Leaves u (readManaged u file answers.read) file answers.restore

/-! ### Lines -/

variable {e : SidEdit}

open SidEdit

theorem foreign_congr {l l' : Text} (h : trim l = trim l') : e.foreign l = e.foreign l' := by
  rw [foreign, foreign, h]

theorem others_eq_splitOn (s : Text) :
    e.others s = ((splitOn '\n' s).filter e.foreign).map trim := by
  have hne := splitOn_ne_nil '\n' s
  obtain ⟨_, last, hfields⟩ := (eq_nil_or_concat' (splitOn '\n' s)).resolve_left hne
  have hlast : ([last].filter (· ≠ [])).filter e.foreign = [last].filter e.foreign := by
    cases last <;> rfl
  have hcomp : e.foreign ∘ dropCarriageReturn = e.foreign :=
    funext fun l => foreign_congr (trim_dropCarriageReturn l)
  simp only [others, lines, hfields, dropLast_concat, getLast?_concat,
    Option.toList_some, filter_append, hlast, filter_map, hcomp, map_append,
    map_map]
  congr 2
  exact funext trim_dropCarriageReturn

theorem others_append (s t : Text) : e.others (s ++ '\n' :: t) = e.others s ++ e.others t := by
  simp [others_eq_splitOn, splitOn_append_sep]

theorem others_of_not_mem {l : Text} (h : '\n' ∉ l) :
    e.others l = ([l].filter e.foreign).map trim := by
  rw [others_eq_splitOn, splitOn_of_not_mem h]

theorem others_intercalate {ls : List Text} (h : ∀ l ∈ ls, '\n' ∉ l) :
    e.others (['\n'].intercalate ls) = (ls.filter e.foreign).map trim := by
  induction ls with
  | nil => rfl
  | cons l ls ih =>
    obtain ⟨hl, hls⟩ := forall_mem_cons.1 h
    cases ls with
    | nil =>
      rw [intercalate_singleton]
      exact others_of_not_mem hl
    | cons l' ls =>
      have hjoin : ['\n'].intercalate (l :: l' :: ls) =
          l ++ '\n' :: ['\n'].intercalate (l' :: ls) := by
        simp [intercalate]
      rw [hjoin, others_append, ih hls, others_of_not_mem hl, ← map_append,
        ← filter_append]
      rfl

/-! ### The new content -/

theorem lineFeed_not_mem_of_mem_kept {previous l : Text} (h : l ∈ e.kept previous) : '\n' ∉ l := by
  rcases mem_append.1 h with h | h
  · exact lineFeed_not_mem_of_mem_lines (mem_of_mem_filter h)
  · split_ifs at h
    · exact mem_singleton.1 h ▸ e.oneLine
    · cases h

/-- The lines of others among those that stay. -/
def SidEdit.left (e : SidEdit) (previous : Text) : List Text :=
  (((lines previous).filter (!e.drops ·)).filter e.foreign).map trim

private theorem others_kept (previous : Text) :
    e.others (['\n'].intercalate (e.kept previous)) = e.left previous := by
  have hline : (if e.present then [e.line] else []).filter e.foreign = [] := by
    split_ifs with hpresent
    · simp [foreign, e.managed hpresent]
    · rfl
  rw [others_intercalate fun l => lineFeed_not_mem_of_mem_kept, kept, filter_append,
    hline, append_nil, left]

private theorem others_managedHeader : e.others managedHeader = [managedHeader] := by
  have htrim : trim managedHeader = managedHeader := by decide +kernel
  have hforeign : e.foreign managedHeader := by
    rw [foreign, htrim, e.header]
    rfl
  rw [others_of_not_mem (by decide), filter_cons_of_pos hforeign]
  exact congrArg (fun l => [l]) htrim

/-- What others have in the new content: a header, if there was none, and what stays. -/
theorem others_body (previous : Text) :
    e.others (e.body previous) =
      (if (lines previous).any (trim · = managedHeader) then [] else [managedHeader]) ++
        e.left previous := by
  have hend : ∀ s, e.others (if s.getLast? = some '\n' then s else s ++ ['\n']) = e.others s := by
    intro s
    split_ifs
    · rfl
    · exact (others_append s []).trans (append_nil _)
  rw [body, hend]
  split_ifs
  · exact others_kept previous
  · rw [append_assoc, singleton_append, others_append, others_managedHeader, others_kept]

theorem left_sublist (text : Text) :
    (((lines text).filter (!e.drops ·)).filter e.foreign).Sublist ((lines text).filter e.foreign) :=
  filter_sublist.filter _

variable {text : Text}

private theorem left_eq_others_iff :
    e.left text = e.others text ↔ ∀ l ∈ lines text, e.drops l → e.foreign l = false := by
  constructor
  · intro h l hl hdrops
    have hlength := congrArg length h
    rw [left, others, length_map, length_map] at hlength
    by_contra hforeign
    have hmem := mem_filter.2 ⟨hl, Bool.not_eq_false _ ▸ hforeign⟩
    rw [← (left_sublist text).eq_of_length hlength] at hmem
    have hkept := (mem_filter.1 (mem_of_mem_filter hmem)).2
    rw [hdrops] at hkept
    exact Bool.false_ne_true hkept
  · intro h
    rw [left, filter_filter]
    refine congrArg _ (filter_congr fun l hl => ?_)
    cases hdrops : e.drops l with
    | false => exact Bool.and_true _
    | true => rw [h l hl hdrops, Bool.false_and]

variable {old : Text}

/-- With the list read as it is, the lines of others stay exactly if none of them is taken out. -/
theorem keeps_read_iff :
    (e.others (e.body old) = e.others old ∨
        e.others (e.body old) = managedHeader :: e.others old) ↔
      ∀ l ∈ lines old, e.drops l → e.foreign l = false := by
  rw [others_body, ← left_eq_others_iff]
  have hlength : (e.left old).length ≤ (e.others old).length := by
    rw [left, others, length_map, length_map]
    exact (left_sublist old).length_le
  split_ifs with hheader
  · refine or_iff_left fun h => ?_
    rw [nil_append] at h
    have := congrArg length h
    rw [length_cons] at this
    omega
  · rw [singleton_append, cons.injEq, and_iff_right rfl]
    refine or_iff_right fun h => hheader ?_
    have hmem : managedHeader ∈ e.others old := h ▸ mem_cons_self
    obtain ⟨l, hl, htrim⟩ := mem_map.1 hmem
    exact any_eq_true.2 ⟨l, mem_of_mem_filter hl, decide_eq_true htrim⟩

/-- With the list taken for empty, they stay exactly if there were none. -/
theorem keeps_unread_iff :
    (e.others (e.body []) = e.others old ∨
        e.others (e.body []) = managedHeader :: e.others old) ↔
      e.others old = [] ∨ e.others old = [managedHeader] := by
  have hbody : e.others (e.body []) = [managedHeader] := others_body []
  rw [hbody, cons.injEq, and_iff_right rfl, eq_comm, or_comm, eq_comm]

private theorem encode_injective {s t : Text} (h : u.encode s = u.encode t) : s = t := by
  rw [← u.decodeLossy_encode s, h, u.decodeLossy_encode]

variable {file : Option β} {u : Utf8 β}

theorem readManaged_of_holds (h : Holds u file old) : readManaged u file .printed = old := by
  rcases h with rfl | ⟨rfl, rfl⟩
  · exact u.decodeLossy_encode old
  · rfl

theorem safe_ok_iff (answer : CatAnswer) :
    e.Safe u file (.ok (), some (u.encode (e.body (readManaged u file answer)))) ↔
      e.ReadWell u file answer := by
  have hnew : e.Safe u file (.ok (), some (u.encode (e.body (readManaged u file answer)))) ↔
      ∃ old, Holds u file old ∧
        (e.others (e.body (readManaged u file answer)) = e.others old ∨
          e.others (e.body (readManaged u file answer)) = managedHeader :: e.others old) := by
    constructor
    · rintro ⟨old, _, hold, hnew, hkeeps⟩
      rw [encode_injective u (Option.some.inj hnew)]
      exact ⟨old, hold, hkeeps⟩
    · rintro ⟨old, hold, hkeeps⟩
      exact ⟨old, _, hold, rfl, hkeeps⟩
  rw [hnew]
  refine exists_congr fun old => and_congr_right fun hold => ?_
  cases answer with
  | printed =>
    rw [readManaged_of_holds hold]
    exact keeps_read_iff
  | refused | unspawned => exact keeps_unread_iff

theorem leaves_iff {answer : TeeAnswer β} :
    (writeManagedFile u text answer).2 = file ↔ Leaves u text file answer := by
  cases answer with
  | written => exact eq_comm
  | failed => exact Iff.rfl

theorem SidEdit.safe_iff (e : SidEdit) (u : Utf8 β) (answers : Answers β) (file : Option β) :
    e.Safe u file (e.run u answers file) ↔ e.Faithful u answers file := by
  rw [run, Faithful]
  cases answers.write with
  | failed => exact or_saysNotRestored_iff _
  | written =>
    cases answers.validate with
    | error => exact (or_saysNotRestored_iff _).trans leaves_iff
    | ok =>
      cases answers.reload with
      | error => exact (or_saysNotRestored_iff _).trans eq_comm
      | ok => exact safe_ok_iff answers.read

inductive Operation
  | setSidEnabled (sid : ℕ) (enabled : Bool)
  | suppressSid (sid : ℕ) (suppress : Bool)
  | setSidAction (sid : ℕ) (action : Text)

def parseAction (action : Text) : Option SidAction :=
  if action = "alert" then some .alert
  else if action = "drop" then some .drop
  else if action = "reject" then some .reject
  else none

def Operation.edit : Operation → SidEdit
  | setSidEnabled sid enabled => Scourge.setSidEnabled sid enabled
  | suppressSid sid suppress => Scourge.suppressSid sid suppress
  | setSidAction sid action => Scourge.setSidAction sid ((parseAction action).getD .alert)

def Operation.refusal (engine : Bool) : Operation → Option Failure
  | setSidAction _ action =>
    if !engine then some .noEngine
    else if (parseAction action).isNone then
      some (.rejected "action must be alert, drop, or reject")
    else none
  | _ => if !engine then some .noEngine else none

def Operation.run (op : Operation) (u : Utf8 β) (engine : Bool) (answers : Answers β)
    (file : Option β) : Except Failure Unit × Option β :=
  match op.refusal engine with
  | some failure => (.error failure, file)
  | none => op.edit.run u answers file

/-! ### The configuration -/

/-- How the programs end that `apply_config` runs. `removed` tells whether `rm` worked. -/
structure ApplyAnswers (β : Type*) where
  readMain : CatAnswer
  readOverride : CatAnswer
  writeOverride : TeeAnswer β
  writeMain : TeeAnswer β
  validate : Except String Unit
  reload : Except String Unit
  restoreMain : TeeAnswer β
  removed : Bool
  restoreOverride : TeeAnswer β

structure Files (β : Type*) where
  main : Option β
  override : Option β

def includeLine : Text := "\ninclude: " ++ overrideInclude ++ ['\n']

def included (main : Text) : Bool := (splitAtText overrideInclude main).isSome

variable (u)

def addInclude (previous : Text) (main : Option β) (answer : TeeAnswer β) :
    Except String Unit × Option β :=
  if included previous then (.ok (), main)
  else
    match answer with
    | .written _ => (.ok (), some (u.encode (previous ++ includeLine)))
    | .failed error left => (.error error, left)

def restoreConfig (previousMain previousOverride : Text)
    (answers : ApplyAnswers β) (files : Files β) : Files β where
  main := (writeManagedFile u previousMain answers.restoreMain).2
  override :=
    if previousOverride = [] then if answers.removed then none else files.override
    else (writeManagedFile u previousOverride answers.restoreOverride).2

/-- `apply_config`. The arguments come to an error or to the text of the override file. -/
def applyConfig (engine : Bool) (rendered : Except String Text)
    (answers : ApplyAnswers β) (files : Files β) : Except Failure Unit × Files β :=
  if !engine then (.error .noEngine, files)
  else
    match rendered with
    | .error message => (.error (.rejected message), files)
    | .ok yaml =>
      let previousMain := readManaged u files.main answers.readMain
      let previousOverride := readManaged u files.override answers.readOverride
      if previousMain = [] then (.error .unread, files)
      else
        match answers.writeOverride with
        | .failed error left =>
          (.error (.unwritten "override file" error), { files with override := left })
        | .written _ =>
          match addInclude u previousMain files.main answers.writeMain with
          | (.error error, main) => (.error (.notIncluded error), ⟨main, some (u.encode yaml)⟩)
          | (.ok _, main) =>
            let files : Files β := ⟨main, some (u.encode yaml)⟩
            let restored := restoreConfig u previousMain previousOverride answers files
            match answers.validate, answers.reload with
            | .ok _, .ok _ => (.ok (), files)
            | .ok _, .error error => (.error (.notReloaded error), restored)
            | .error error, _ => (.error (.invalid error "config (not applied)"), restored)

/-- An error leaves the files or says that it does not; success keeps the lines of the main
configuration. -/
def SafeApply (before : Files β) : Except Failure Unit × Files β → Prop
  | (.error failure, after) => after = before ∨ failure.saysNotRestored = true
  | (.ok _, after) => after.main = before.main ∨
      ∃ old, before.main = some (u.encode old) ∧ after.main = some (u.encode (old ++ includeLine))

/-- The override file is as it was: removed if there was none, or written back. -/
def OverrideBack (previous : Text) (answers : ApplyAnswers β) (before override : Option β) : Prop :=
  if previous = [] then (if answers.removed then none else override) = before
  else Leaves u previous before answers.restoreOverride

/-- A write that fails leaves both files alone, what is written back was there, and a main
configuration that is rewritten is a text. -/
def FaithfulApply (yaml : Text) (answers : ApplyAnswers β) (files : Files β) : Prop :=
  let previousMain := readManaged u files.main answers.readMain
  let previousOverride := readManaged u files.override answers.readOverride
  previousMain ≠ [] →
    match answers.writeOverride with
    | .failed _ left => left = files.override
    | .written _ =>
      match addInclude u previousMain files.main answers.writeMain with
      | (.error _, main) => main = files.main ∧ some (u.encode yaml) = files.override
      | (.ok _, _) =>
        match answers.validate, answers.reload with
        | .ok _, .ok _ =>
          included previousMain = true ∨ files.main = some (u.encode previousMain)
        | _, _ =>
          Leaves u previousMain files.main answers.restoreMain ∧
            OverrideBack u previousOverride answers files.override (some (u.encode yaml))

variable {u}

theorem restoreConfig_eq_iff {previousMain previousOverride : Text}
    {answers : ApplyAnswers β} {files : Files β} {main override : Option β} :
    restoreConfig u previousMain previousOverride answers ⟨main, override⟩ = files ↔
      Leaves u previousMain files.main answers.restoreMain ∧
        OverrideBack u previousOverride answers files.override override := by
  obtain ⟨_, _⟩ := files
  rw [restoreConfig, Files.mk.injEq, leaves_iff, OverrideBack]
  refine and_congr_right fun _ => ?_
  by_cases hprevious : previousOverride = []
  · rw [if_pos hprevious, if_pos hprevious]
  · rw [if_neg hprevious, if_neg hprevious]
    exact leaves_iff

private theorem readManaged_of_ne_nil {answer : CatAnswer}
    (h : readManaged u (some (u.encode text)) answer ≠ []) :
    readManaged u (some (u.encode text)) answer = text := by
  cases answer with
  | printed => exact u.decodeLossy_encode text
  | refused | unspawned => exact absurd rfl h

private theorem keepsMain_iff {main main' : Option β} {answer : CatAnswer}
    {tee : TeeAnswer β} (hread : readManaged u main answer ≠ [])
    (hadd : addInclude u (readManaged u main answer) main tee = (.ok (), main')) :
    (main' = main ∨ ∃ old, main = some (u.encode old) ∧
        main' = some (u.encode (old ++ includeLine))) ↔
      included (readManaged u main answer) ∨
        main = some (u.encode (readManaged u main answer)) := by
  unfold addInclude at hadd
  split_ifs at hadd with hincluded
  · cases hadd
    exact iff_of_true (.inl rfl) (.inl hincluded)
  · cases tee with
    | failed => cases (Prod.mk.inj hadd).1
    | written =>
      cases hadd
      rw [or_iff_right hincluded]
      constructor
      · rintro (h | ⟨old, rfl, -⟩)
        · -- the file would hold what was read from it and a line more
          rw [← h] at hread
          have hsame := readManaged_of_ne_nil hread
          rw [h] at hsame
          exact absurd (self_eq_append_right.1 hsame) (cons_ne_nil _ _)
        · rw [readManaged_of_ne_nil hread]
      · intro h
        exact .inr ⟨_, h, rfl⟩

theorem safeApply_iff (u : Utf8 β) (yaml : Text) (answers : ApplyAnswers β) (files : Files β) :
    SafeApply u files (applyConfig u true (.ok yaml) answers files) ↔
      FaithfulApply u yaml answers files := by
  simp only [applyConfig, FaithfulApply, Bool.not_true, Bool.false_eq_true, if_false]
  by_cases hread : readManaged u files.main answers.readMain = []
  · rw [if_pos hread]
    exact iff_of_true (.inl rfl) fun h => absurd hread h
  · rw [if_neg hread, imp_iff_right hread]
    cases answers.writeOverride with
    | failed =>
      refine (or_saysNotRestored_iff _).trans ?_
      exact ⟨fun h => congrArg Files.override h, fun h => h ▸ rfl⟩
    | written =>
      cases hadd : addInclude u (readManaged u files.main answers.readMain) files.main
        answers.writeMain with
      | mk result main =>
        cases result with
        | error =>
          exact (or_saysNotRestored_iff _).trans (Files.mk.injEq .. ▸ Iff.rfl)
        | ok =>
          cases answers.validate with
          | error => exact (or_saysNotRestored_iff _).trans restoreConfig_eq_iff
          | ok =>
            cases answers.reload with
            | error => exact (or_saysNotRestored_iff _).trans restoreConfig_eq_iff
            | ok => exact keepsMain_iff hread hadd

/-- Each operation is safe exactly if it is refused before it writes, or the programs end
faithfully. -/
theorem safe_iff_faithful (u : Utf8 β) (engine : Bool) :
    (∀ (op : Operation) (answers : Answers β) (file : Option β),
      op.edit.Safe u file (op.run u engine answers file) ↔
        (op.refusal engine).isSome ∨ op.edit.Faithful u answers file) ∧
    ∀ (rendered : Except String Text) (answers : ApplyAnswers β) (files : Files β),
      SafeApply u files (applyConfig u engine rendered answers files) ↔
        ∀ yaml, engine → rendered = .ok yaml → FaithfulApply u yaml answers files := by
  constructor
  · intro op answers file
    rw [Operation.run]
    cases op.refusal engine with
    | some => exact iff_of_true (.inl rfl) (.inl rfl)
    | none => exact (op.edit.safe_iff u answers file).trans (or_iff_right Bool.false_ne_true).symm
  · intro rendered answers files
    cases engine with
    | false => exact iff_of_true (.inl rfl) nofun
    | true =>
      cases rendered with
      | error => exact iff_of_true (.inl rfl) nofun
      | ok yaml =>
        rw [safeApply_iff]
        exact ⟨fun h yaml' _ heq => Except.ok.inj heq ▸ h, fun h => h yaml rfl rfl⟩

def unreadable : Answers Text where
  read := .refused
  write := .written ⟨[], [], some 0⟩
  validate := .ok ()
  reload := .ok ()
  restore := .written ⟨[], [], some 0⟩

def fullDisk : Answers Text where
  read := .printed
  write := .written ⟨[], [], some 0⟩
  validate := .error "config validation failed"
  reload := .ok ()
  restore := .failed "No space left on device" (some [])

def twoRules : Text := "5\n6\n"

/-- Disabling a rule empties the list when `cat` fails, and reports success. A list that could not
be written back is reported as restored. -/
theorem not_safe_of_unreadable_and_of_fullDisk :
    ¬ (setSidEnabled 7 false).Safe plainUtf8 (some twoRules)
        ((Operation.setSidEnabled 7 false).run plainUtf8 true unreadable (some twoRules)) ∧
      ¬ (setSidEnabled 7 false).Safe plainUtf8 (some twoRules)
        ((Operation.setSidEnabled 7 false).run plainUtf8 true fullDisk (some twoRules)) := by
  constructor
  · intro h
    obtain ⟨old, hold, hothers⟩ := (safe_ok_iff .refused).1 h
    obtain rfl : old = twoRules := by
      rcases hold with hold | ⟨hnone, -⟩
      · exact (Option.some.inj hold).symm
      · cases hnone
    revert hothers
    decide +kernel
  · intro h
    cases (or_saysNotRestored_iff _).1 h

end Abyssal.Agent.Scourge
