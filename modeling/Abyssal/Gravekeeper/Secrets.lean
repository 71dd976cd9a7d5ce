import Abyssal.Gravekeeper.Scripts
import Abyssal.Text.Layout

/-!
# Secrets on standard input

`set_password` and `create_user` hand two secrets to their script on its standard input, a line for
each. The script reads the line of the service account first. Nothing looks for a line break in a
secret.

## Main results

* `delivers_iff`: when both secrets arrive.
-/

namespace Abyssal.Gravekeeper

open Text List Option

def stdinData (servicePassword newPassword : Text) : Text :=
  servicePassword ++ '\n' :: (newPassword ++ ['\n'])

def isLineBreak (c : Char) : Bool := c = '\n' || c = '\r'

/-- `ReadLine`: what stands before the next line break, and what follows that. -/
def readLine (input : Text) : Option (Text × Text) :=
  let line := input.takeWhile (!isLineBreak ·)
  match input.dropWhile (!isLineBreak ·) with
  | [] => if line = [] then none else some (line, [])
  | '\r' :: '\n' :: rest => some (line, rest)
  | _ :: rest => some (line, rest)

/-- What the two calls of `ReadLine` return: the password that authenticates, and the new one. -/
def readSecrets (input : Text) : Option (Text × Text) := do
  let (servicePassword, rest) ← readLine input
  let (newPassword, _) ← readLine rest
  return (servicePassword, newPassword)

/-- The operation is refused, or its script reads the secrets that were given. -/
def Delivers (outcome : Outcome) (servicePassword newPassword : Text) : Prop :=
  (∃ message, outcome = .error message) ∨
    readSecrets (stdinData servicePassword newPassword) = some (servicePassword, newPassword)

variable {line : Text}

theorem readLine_append (h : OneLine line) (rest : Text) :
    readLine (line ++ '\n' :: rest) = some (line, rest) := by
  have hline : ∀ c ∈ line, (!isLineBreak c) := by
    intro c hc
    simp only [isLineBreak, Bool.not_or, Bool.and_eq_true, Bool.not_eq_true',
      decide_eq_false_iff_not]
    exact ⟨fun hfeed => h.1 (hfeed ▸ hc), fun hreturn => h.2 (hreturn ▸ hc)⟩
  rw [readLine, takeWhile_append_of_pos hline, dropWhile_append_of_pos hline,
    takeWhile_cons_of_neg (by decide), dropWhile_cons_of_neg (by decide), append_nil]
  rfl

private theorem oneLine_of_readLine {input rest : Text} (h : readLine input = some (line, rest)) :
    OneLine line := by
  have hline : line = input.takeWhile (!isLineBreak ·) := by
    rw [readLine] at h
    split at h
    · split_ifs at h
      exact (Prod.mk.inj (some.inj h)).1.symm
    · exact (Prod.mk.inj (some.inj h)).1.symm
    · exact (Prod.mk.inj (some.inj h)).1.symm
  have hall := all_eq_true.1 (@all_takeWhile _ (!isLineBreak ·) input)
  rw [← hline] at hall
  exact ⟨fun hmem => Bool.noConfusion (hall _ hmem), fun hmem => Bool.noConfusion (hall _ hmem)⟩

private theorem readSecrets_iff (servicePassword newPassword : Text) :
    readSecrets (stdinData servicePassword newPassword) = some (servicePassword, newPassword) ↔
      OneLine servicePassword ∧ OneLine newPassword := by
  constructor
  · intro h
    obtain ⟨⟨_, _⟩, hfirst, h⟩ := bind_eq_some_iff.1 h
    obtain ⟨⟨_, _⟩, hsecond, h⟩ := bind_eq_some_iff.1 h
    cases h
    exact ⟨oneLine_of_readLine hfirst, oneLine_of_readLine hsecond⟩
  · rintro ⟨hservice, hnew⟩
    rw [readSecrets, stdinData, readLine_append hservice]
    exact congrArg (bind · _) (readLine_append hnew [])

/-- The secrets arrive as they were given, unless the operation is refused, exactly if neither has a
line break. -/
theorem delivers_iff (servicePassword : Text) :
    (∀ domainDns upn targetDn newPassword allow,
      Delivers (setPassword domainDns upn targetDn newPassword allow) servicePassword newPassword ↔
        (∃ message, setPassword domainDns upn targetDn newPassword allow = .error message) ∨
          OneLine servicePassword ∧ OneLine newPassword) ∧
    ∀ toLowercase args, Delivers (createUser toLowercase args) servicePassword args.password ↔
      (∃ message, createUser toLowercase args = .error message) ∨
        OneLine servicePassword ∧ OneLine args.password :=
  ⟨fun _ _ _ newPassword _ => or_congr_right (readSecrets_iff servicePassword newPassword),
    fun _ args => or_congr_right (readSecrets_iff servicePassword args.password)⟩

/-- A line feed in the password of the service account: what follows it becomes the new password. -/
theorem not_delivers_of_lineFeed :
    ¬ Delivers (setPassword "ad.example" "svc@ad.example"
        "CN=ada,DC=ad,DC=example" "right" false) "a\nb" "right" ∧
      readSecrets (stdinData "a\nb".toList "right".toList) = some ("a".toList, "b".toList) := by
  refine ⟨?_, by decide⟩
  rintro (⟨_, h⟩ | h)
  · cases h
  · revert h
    decide

end Abyssal.Gravekeeper
