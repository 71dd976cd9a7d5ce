import Abyssal.Text.Basic
import Mathlib.Data.List.Infix

/-!
# Extended regular expressions

An expression is matched against a piece of a text, with what stands before and after it, so that
anchors have a meaning. `Reads` relates the text of an expression to the expressions it can be read
as. It does not resolve which operator binds more tightly, and leaves open what stands in brackets
and braces: what is proved of every reading is proved of the right one.
-/

namespace Abyssal.Text

open List

inductive Ere where
  | char (c : Char)
  | oneOf (isIn : Char → Bool)
  | atStart
  | atEnd
  | seq (r q : Ere)
  | alt (r q : Ere)
  | repeated (r : Ere) (isCount : ℕ → Bool)

/-- The expression matches `word` between `before` and `after`. -/
def Ere.Matches : Ere → (before word after : Text) → Prop
  | char c, _, word, _ => word = [c]
  | oneOf isIn, _, word, _ => ∃ c, isIn c = true ∧ word = [c]
  | atStart, before, word, _ => before = [] ∧ word = []
  | atEnd, _, word, after => word = [] ∧ after = []
  | seq r q, before, word, after => ∃ u v, word = u ++ v ∧ r.Matches before u (v ++ after) ∧
      q.Matches (before ++ u) v after
  | alt r q, before, word, after => r.Matches before word after ∨ q.Matches before word after
  | repeated r isCount, before, word, after => ∃ words : List Text,
      isCount words.length = true ∧ word = words.flatten ∧
        ∀ us u vs, words = us ++ u :: vs → r.Matches (before ++ us.flatten) u (vs.flatten ++ after)

/-- The expression matches somewhere in the text. -/
def Ere.Finds (r : Ere) (text : Text) : Prop :=
  ∃ before word after, text = before ++ word ++ after ∧ r.Matches before word after

def specialChars : Text := ['.', '[', '\\', '(', ')', '*', '+', '?', '{', '|', '^', '$']

inductive Reads : Text → Ere → Prop
  | ordinary {c : Char} (h : c ∉ specialChars) : Reads [c] (.char c)
  | escaped (c : Char) (r : Ere) : Reads ['\\', c] r
  | any : Reads ['.'] (.oneOf fun _ => true)
  | bracket (body : Text) (isIn : Char → Bool) : Reads ('[' :: body ++ [']']) (.oneOf isIn)
  | atStart : Reads ['^'] .atStart
  | atEnd : Reads ['$'] .atEnd
  | group {s : Text} {r : Ere} (h : Reads s r) : Reads ('(' :: s ++ [')']) r
  | seq {s t : Text} {r q : Ere} (hs : Reads s r) (ht : Reads t q) : Reads (s ++ t) (.seq r q)
  | alt {s t : Text} {r q : Ere} (hs : Reads s r) (ht : Reads t q) :
    Reads (s ++ '|' :: t) (.alt r q)
  | star {s : Text} {r : Ere} (h : Reads s r) : Reads (s ++ ['*']) (.repeated r fun _ => true)
  | plus {s : Text} {r : Ere} (h : Reads s r) : Reads (s ++ ['+']) (.repeated r (1 ≤ ·))
  | optional {s : Text} {r : Ere} (h : Reads s r) : Reads (s ++ ['?']) (.repeated r (· ≤ 1))
  | interval {s : Text} {r : Ere} (h : Reads s r) (bounds : Text) (isCount : ℕ → Bool) :
    Reads (s ++ '{' :: bounds ++ ['}']) (.repeated r isCount)

variable {s : Text}

theorem exists_reads (hne : s ≠ []) (h : ∀ c ∈ s, c ∉ specialChars) : ∃ r, Reads s r := by
  induction s with
  | nil => exact absurd rfl hne
  | cons c s ih =>
    have hc := Reads.ordinary (h c mem_cons_self)
    cases s with
    | nil => exact ⟨_, hc⟩
    | cons d s =>
      obtain ⟨_, hr⟩ := ih (cons_ne_nil d s) fun e he => h e (mem_cons_of_mem c he)
      exact ⟨_, hc.seq hr⟩

theorem eq_of_reads {r : Ere} (hr : Reads s r) (h : ∀ c ∈ s, c ∉ specialChars)
    {before word after : Text} (hmatch : r.Matches before word after) : word = s := by
  induction hr generalizing before word after with
  | ordinary => exact hmatch
  | seq _ _ ihs iht =>
    obtain ⟨_, _, rfl, hu, hv⟩ := hmatch
    rw [ihs (fun c hc => h c (mem_append_left _ hc)) hu,
      iht (fun c hc => h c (mem_append_right _ hc)) hv]
  | escaped => exact absurd (by decide) (h '\\' (by simp))
  | any => exact absurd (by decide) (h '.' (by simp))
  | bracket => exact absurd (by decide) (h '[' (by simp))
  | atStart => exact absurd (by decide) (h '^' (by simp))
  | atEnd => exact absurd (by decide) (h '$' (by simp))
  | group => exact absurd (by decide) (h '(' (by simp))
  | alt => exact absurd (by decide) (h '|' (by simp))
  | star => exact absurd (by decide) (h '*' (by simp))
  | plus => exact absurd (by decide) (h '+' (by simp))
  | optional => exact absurd (by decide) (h '?' (by simp))
  | interval => exact absurd (by decide) (h '{' (by simp))

theorem infix_of_finds {r : Ere} {text : Text} (hr : Reads s r)
    (h : ∀ c ∈ s, c ∉ specialChars) (hfinds : r.Finds text) : s <:+: text := by
  obtain ⟨before, _, after, rfl, hmatch⟩ := hfinds
  exact ⟨before, after, by rw [eq_of_reads hr h hmatch]⟩

end Abyssal.Text
