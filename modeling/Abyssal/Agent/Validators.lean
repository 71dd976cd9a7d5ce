import Abyssal.Text.Layout

/-!
# Checks of arguments

The checks that the control plane and the agent share, for names, paths and values that end up
on a line of a configuration file or among the arguments of a program.
-/

namespace Abyssal.Agent

open Text List

/-! ### Checks -/

def alphanumericOr (others : Text) (s : Text) : Bool :=
  s.all fun c => isAsciiAlphanumeric c || others.contains c

def isValidAccountName : Text → Bool
  | [] => false
  | first :: rest =>
    byteLength (first :: rest) ≤ 32 && (isAsciiLowercase first || first = '_') &&
      rest.all fun c => isAsciiLowercase c || isAsciiDigit c || ['_', '-'].contains c

def isValidSysctlKey (key : Text) : Bool :=
  key ≠ [] && byteLength key ≤ 200 && key.head? ≠ some '-' &&
    alphanumericOr ['.', '/', '_', '-'] key

def isValidSysctlValue (value : Text) : Bool :=
  value ≠ [] && byteLength value ≤ 200 && value.all (!isControl ·)

def isValidKernelModuleName (name : Text) : Bool :=
  name ≠ [] && byteLength name ≤ 64 && name.head? ≠ some '-' &&
    alphanumericOr ['_', '-', '.'] name

def isValidJournaldValue (value : Text) : Bool :=
  value ≠ [] && byteLength value ≤ 32 && alphanumericOr ['.', '%'] value

def nicknames : List Text :=
  ["reboot", "yearly", "annually", "monthly", "weekly", "daily", "hourly"].map String.toList

def isValidCronSchedule (schedule : Text) : Bool :=
  if schedule = [] ∨ byteLength schedule > 100 then false
  else
    match "@".toList.isPrefixOf? schedule with
    | some rest => nicknames.contains rest
    | none => alphanumericOr ['*', '/', ',', '-', ' '] schedule

def isValidCronCommand (command : Text) : Bool :=
  command ≠ [] && byteLength command ≤ 500 && command.all (!isControl ·)

def isValidAbsolutePath (path : Text) : Bool :=
  path.head? = some '/' && path ≠ ['/'] && byteLength path ≤ 4096 && path.all (!isControl ·)

/-! ### What the checks let through -/

def Graphic (s : Text) : Prop := ∀ c ∈ s, isAsciiGraphic c = true

instance (s : Text) : Decidable (Graphic s) := decidableBAll _ s

variable {s : Text}

theorem Graphic.isWord (h : Graphic s) (hne : s ≠ []) : IsWord s :=
  ⟨hne, fun c hc => isWhitespace_of_isAsciiGraphic (h c hc)⟩

theorem Graphic.oneLine (h : Graphic s) : OneLine s :=
  oneLine_of_forall fun c hc => isControl_of_isAsciiGraphic (h c hc)

theorem Graphic.trim (h : Graphic s) : trim s = s :=
  trim_of_forall fun c hc => isWhitespace_of_isAsciiGraphic (h c hc)

variable {c : Char}

theorem Graphic.trim_append {front : Text} (h : Graphic s) (hne : s ≠ [])
    (hc : isWhitespace c = false) : Text.trim (c :: front ++ s) = c :: front ++ s := by
  obtain ⟨d, rest, rfl⟩ := exists_cons_of_ne_nil hne
  have hrest : rest.rdropWhile isWhitespace = rest := rdropWhile_of_forall fun e he =>
      isWhitespace_of_isAsciiGraphic (h e (mem_cons_of_mem _ he))
  rw [cons_append, trim_cons hc,
    rdropWhile_append_cons (isWhitespace_of_isAsciiGraphic (h d mem_cons_self)), hrest]

variable {others : Text}

theorem mem_or_of_alphanumericOr (h : alphanumericOr others s) :
    ∀ c ∈ s, isAsciiAlphanumeric c ∨ c ∈ others := by
  intro c hc
  simpa using all_eq_true.1 h c hc

theorem graphic_of_alphanumericOr (hothers : Graphic others)
    (h : alphanumericOr others s) : Graphic s := by
  intro c hc
  rcases mem_or_of_alphanumericOr h c hc with hc | hc
  · exact isAsciiGraphic_of_isAsciiAlphanumeric hc
  · exact hothers c hc

theorem not_mem_of_alphanumericOr
    (h : alphanumericOr others s) (hc : isAsciiAlphanumeric c = false)
    (hothers : c ∉ others) : c ∉ s := by
  intro hmem
  rcases mem_or_of_alphanumericOr h c hmem with halpha | hother
  · rw [hc] at halpha
    cases halpha
  · exact hothers hother

theorem alphanumericOr_of_isValidAccountName {name : Text} (h : isValidAccountName name) :
    name ≠ [] ∧ alphanumericOr ['_', '-'] name := by
  cases name with
  | nil => cases h
  | cons =>
    simp only [isValidAccountName, Bool.and_eq_true, Bool.or_eq_true, decide_eq_true_eq,
      all_eq_true] at h
    obtain ⟨⟨-, hfirst⟩, hrest⟩ := h
    refine ⟨cons_ne_nil _ _, all_eq_true.2 (forall_mem_cons.2 ⟨?_, fun c hc => ?_⟩)⟩
    · rcases hfirst with hlower | rfl
      · simp [isAsciiAlphanumeric, hlower]
      · rfl
    · rcases hrest c hc with (hlower | hdigit) | hother
      · simp [isAsciiAlphanumeric, hlower]
      · simp [isAsciiAlphanumeric, hdigit]
      · exact Bool.or_eq_true_iff.2 (.inr hother)

theorem graphic_of_isValidAccountName {name : Text} (h : isValidAccountName name) :
    name ≠ [] ∧ Graphic name :=
  (alphanumericOr_of_isValidAccountName h).imp_right (graphic_of_alphanumericOr (by decide))

theorem graphic_of_isValidKernelModuleName {m : Text}
    (h : isValidKernelModuleName m) : m ≠ [] ∧ Graphic m := by
  simp only [isValidKernelModuleName, Bool.and_eq_true, decide_eq_true_eq] at h
  exact ⟨h.1.1.1, graphic_of_alphanumericOr (by decide) h.2⟩

end Abyssal.Agent
