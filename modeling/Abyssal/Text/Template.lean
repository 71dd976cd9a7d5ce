import Abyssal.Text.Layout

/-!
# Texts with placeholders

In a template names stand between an opening and a closing character. It is filled in from left to
right, and a name without a value is left as it is, characters and all. What is put in is not read
again: the template is cut into pieces before anything is known about values.
-/

namespace Abyssal.Text

open List

variable {sep : Char} {s : Text}

theorem splitOnce_eq_none_iff : splitOnce sep s = none ↔ sep ∉ s := by
  constructor
  · intro h hsep
    obtain ⟨_, _, rfl, hbefore⟩ := eq_append_cons_of_mem hsep
    rw [splitOnce_append_cons hbefore] at h
    cases h
  · intro h
    have hdrop : s.dropWhile (· ≠ sep) = [] :=
      dropWhile_eq_nil_iff.2 fun c hc => decide_eq_true fun hcs => h (hcs ▸ hc)
    rw [splitOnce, hdrop]

variable {before after : Text}

theorem splitOnce_eq_some_iff :
    splitOnce sep s = some (before, after) ↔ s = before ++ sep :: after ∧ sep ∉ before := by
  constructor
  · intro h
    have hmem : sep ∈ s := by
      by_contra hsep
      rw [splitOnce_eq_none_iff.2 hsep] at h
      cases h
    obtain ⟨_, _, rfl, hbefore⟩ := eq_append_cons_of_mem hmem
    rw [splitOnce_append_cons hbefore] at h
    cases h
    exact ⟨rfl, hbefore⟩
  · rintro ⟨rfl, hbefore⟩
    exact splitOnce_append_cons hbefore after

variable (l r : Char) (value : Text → Option Text)

/-- The template filled in: names stand between `l` and `r`. -/
def substitute (s : Text) : Text :=
  match _hl : splitOnce l s with
  | none => s
  | some (before, tail) =>
    match _hr : splitOnce r tail with
    | none => s
    | some (name, after) =>
      before ++ ((value name).getD (l :: name ++ [r]) ++ substitute after)
termination_by s.length
decreasing_by
  have hs := (splitOnce_eq_some_iff.1 _hl).1
  have htail := (splitOnce_eq_some_iff.1 _hr).1
  rw [hs, htail]
  simp only [length_append, length_cons]
  omega

inductive Piece
  | text (s : Text)
  | placeholder (name : Text)

def Piece.fill : Piece → Text
  | text s => s
  | placeholder name => (value name).getD (l :: name ++ [r])

/-- How a template is cut into pieces. The last piece is a text in which no closing character
follows an opening one. -/
inductive Parses : Text → List Piece → Prop
  | last {s : Text} (h : ∀ before after, s = before ++ l :: after → r ∉ after) :
    Parses s [.text s]
  | next {before name after : Text} {pieces : List Piece} (hbefore : l ∉ before)
    (hname : r ∉ name) (h : Parses after pieces) :
    Parses (before ++ l :: (name ++ r :: after)) (.text before :: .placeholder name :: pieces)

variable {l r}

theorem not_mem_of_first {before' after' : Text} (hbefore : l ∉ before)
    (hafter : r ∉ after) (h : before ++ l :: after = before' ++ l :: after') : r ∉ after' := by
  intro hr
  refine hafter ?_
  rcases append_eq_append_iff.1 h with ⟨as, hbefore', hafter'⟩ | ⟨bs, hbefore', hafter'⟩
  · cases as with
    | nil =>
      rw [nil_append] at hafter'
      rwa [(cons.inj hafter').2]
    | cons =>
      rw [(cons.inj hafter').2]
      exact mem_append_right _ (mem_cons_of_mem _ hr)
  · cases bs with
    | nil =>
      rw [nil_append] at hafter'
      rwa [← (cons.inj hafter').2]
    | cons =>
      refine absurd ?_ hbefore
      rw [hbefore', (cons.inj hafter').1]
      exact mem_append_right _ mem_cons_self

theorem exists_parses (s : Text) : ∃ pieces, Parses l r s pieces := by
  induction hn : s.length using Nat.strong_induction_on generalizing s with
  | _ n ih =>
    subst hn
    by_cases hl : l ∈ s
    swap
    · refine ⟨_, .last fun before after hs => absurd ?_ hl⟩
      rw [hs]
      exact mem_append_right _ mem_cons_self
    obtain ⟨before, tail, rfl, hbefore⟩ := eq_append_cons_of_mem hl
    by_cases hr : r ∈ tail
    swap
    · exact ⟨_, .last fun before' after' => not_mem_of_first hbefore hr⟩
    obtain ⟨name, after, rfl, hname⟩ := eq_append_cons_of_mem hr
    have hlt : after.length < (before ++ l :: (name ++ r :: after)).length := by
      simp only [length_append, length_cons]
      omega
    obtain ⟨_, hpieces⟩ := ih _ hlt after rfl
    exact ⟨_, .next hbefore hname hpieces⟩

theorem Parses.substitute {pieces : List Piece} (h : Parses l r s pieces) :
    substitute l r value s = pieces.flatMap (Piece.fill l r value) := by
  induction h with
  | @last s hlast =>
    rw [Text.substitute]
    split
    · simp [Piece.fill]
    · next before tail hsplit =>
      obtain ⟨hs, -⟩ := splitOnce_eq_some_iff.1 hsplit
      rw [splitOnce_eq_none_iff.2 (hlast _ _ hs)]
      simp [Piece.fill]
  | @next before name after pieces hbefore hname _ ih =>
    rw [Text.substitute, splitOnce_append_cons hbefore]
    dsimp only
    rw [splitOnce_append_cons hname]
    dsimp only
    rw [ih]
    simp [Piece.fill]

end Abyssal.Text
