import Abyssal.Text.Basic
import Mathlib.Data.List.Forall2

/-!
# The fields of a CSV line

`csv_fields` goes through a line once. A quote changes whether commas separate, and two quotes
between quotes are one of the field's own.

## Main results

* `csvFields_intercalate`: fields that are read back.
-/

namespace Abyssal.Panopticon.Dhcp

open List

/-- The loop, with the field read so far and whether it stands between quotes. -/
def csvLoop (field : Text) (quoted : Bool) : Text → List Text
  | [] => [field]
  | c :: rest =>
    if c = '"' ∧ quoted = true ∧ rest.head? = some '"' then
      csvLoop (field ++ ['"']) quoted rest.tail
    else if c = '"' then csvLoop field (!quoted) rest
    else if c = ',' ∧ quoted = false then field :: csvLoop [] quoted rest
    else csvLoop (field ++ [c]) quoted rest
termination_by line => line.length
decreasing_by
  · rw [length_cons, length_tail]
    omega
  · exact Nat.lt_succ_self _
  · exact Nat.lt_succ_self _
  · exact Nat.lt_succ_self _

def csvFields (line : Text) : List Text := csvLoop [] false line

/-! ### Quoting -/

def doubled (field : Text) : Text :=
  field.flatMap fun c => if c = '"' then ['"', '"'] else [c]

/-- How RFC 4180 writes a field: between quotes, or as it is if it has no quote and no comma. -/
def Writes (field text : Text) : Prop :=
  text = '"' :: (doubled field ++ ['"']) ∨ text = field ∧ '"' ∉ field ∧ ',' ∉ field

variable {f text rest : Text}

theorem csvLoop_doubled (hrest : rest.head? ≠ some '"') (field : Text) :
    csvLoop field true (doubled f ++ '"' :: rest) = csvLoop (field ++ f) false rest := by
  induction f generalizing field with
  | nil =>
    rw [append_nil]
    change csvLoop field true ('"' :: rest) = _
    rw [csvLoop, if_neg fun h => hrest h.2.2, if_pos rfl, Bool.not_true]
  | cons c f ih =>
    have happend : field ++ c :: f = field ++ [c] ++ f := by simp
    rw [happend, ← ih, doubled, flatMap_cons, ← doubled]
    by_cases hc : c = '"'
    · rw [hc, if_pos rfl, cons_append, cons_append, csvLoop, if_pos ⟨rfl, rfl, rfl⟩]
      rfl
    · rw [if_neg hc, singleton_append, cons_append, csvLoop, if_neg fun h => hc h.1, if_neg hc,
        if_neg fun h => Bool.noConfusion h.2]

private theorem csvLoop_bare (hquote : '"' ∉ f) (hcomma : ',' ∉ f) (field : Text) :
    csvLoop field false (f ++ rest) = csvLoop (field ++ f) false rest := by
  induction f generalizing field with
  | nil => rw [append_nil, nil_append]
  | cons c f ih =>
    rw [mem_cons, not_or] at hquote hcomma
    rw [cons_append, csvLoop, if_neg fun h => hquote.1 h.1.symm, if_neg (Ne.symm hquote.1),
      if_neg fun h => hcomma.1 h.1.symm, ih hquote.2 hcomma.2, append_assoc, singleton_append]

private theorem csvLoop_of_writes (h : Writes f text) (hrest : rest.head? ≠ some '"') :
    csvLoop [] false (text ++ rest) = csvLoop f false rest := by
  rcases h with rfl | ⟨rfl, hquote, hcomma⟩
  · have htext : '"' :: (doubled f ++ ['"']) ++ rest = '"' :: (doubled f ++ '"' :: rest) := by
      simp
    rw [htext, csvLoop, if_neg fun h => Bool.noConfusion h.2.1, if_pos rfl, Bool.not_false,
      csvLoop_doubled hrest, nil_append]
  · exact csvLoop_bare hquote hcomma []

/-- A line of written fields, with commas between them, is split into the fields. -/
theorem csvFields_intercalate {fields texts : List Text} (hne : fields ≠ [])
    (h : Forall₂ Writes fields texts) : csvFields ([','].intercalate texts) = fields := by
  induction h with
  | nil => exact absurd rfl hne
  | cons hfirst hothers ih =>
    cases hothers with
    | nil =>
      have hlast : csvLoop [] false (_ ++ []) = _ := csvLoop_of_writes hfirst nofun
      rw [append_nil, csvLoop] at hlast
      rwa [intercalate_singleton]
    | cons =>
      rw [intercalate_cons_cons, append_assoc, csvFields, csvLoop_of_writes hfirst (by simp),
        singleton_append, csvLoop, if_neg fun h => Bool.noConfusion h.2.1, if_neg (by decide),
        if_pos ⟨rfl, rfl⟩]
      exact congrArg _ (ih (cons_ne_nil _ _))

theorem csvFields_intercalate_blank :
    csvFields ([','].intercalate ["\"a\"\"b,\"", "\"\"", " "]) = ["a\"b,".toList, [], " ".toList] :=
  csvFields_intercalate (cons_ne_nil _ _)
    (.cons (.inl rfl) (.cons (.inl rfl) (.cons (.inr ⟨rfl, by decide, by decide⟩) .nil)))

end Abyssal.Panopticon.Dhcp
