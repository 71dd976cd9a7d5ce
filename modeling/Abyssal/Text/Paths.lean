import Abyssal.Text.Layout

/-!
# Paths

A path is text with names between slashes. Empty names and the name `.` say nothing; the name
`..` leads back to the directory above.
-/

namespace Abyssal.Text

open List

def components (path : Text) : List Text :=
  (splitOn '/' path).filter fun part => part ≠ [] ∧ part ≠ ['.']

variable (parts : List Text)

def slashed : Text := parts.flatMap ('/' :: ·)

def displayPath : Text :=
  if parts = [] then ['/'] else slashed parts

def parentName : Text := ['.', '.']

/-- One name after those that have been resolved. -/
def descend (above : List Text) (part : Text) : List Text :=
  if part = parentName then above.dropLast else above ++ [part]

/-- The names when each `..` has taken the name before it away. -/
def resolve : List Text := parts.foldl descend []

structure IsName (part : Text) : Prop where
  ne_nil : part ≠ []
  ne_dot : part ≠ ['.']
  not_mem : '/' ∉ part

/-! ### Reading back -/

variable {part : Text}

theorem isName_of_mem_components {path : Text} (h : part ∈ components path) : IsName part := by
  obtain ⟨hmem, hpart⟩ := mem_filter.1 h
  obtain ⟨hnil, hdot⟩ := of_decide_eq_true hpart
  exact ⟨hnil, hdot, (of_mem_splitOn hmem).1⟩

theorem components_append_slash (s t : Text) :
    components (s ++ '/' :: t) = components s ++ components t := by
  rw [components, splitOn_append_sep, filter_append, components, components]

theorem components_of_isName (h : IsName part) : components part = [part] := by
  rw [components, splitOn_of_not_mem h.not_mem]
  exact filter_cons_of_pos (decide_eq_true ⟨h.ne_nil, h.ne_dot⟩)

theorem slashed_append (parts parts' : List Text) :
    slashed (parts ++ parts') = slashed parts ++ slashed parts' :=
  flatMap_append

theorem slashed_concat (part : Text) :
    slashed (parts ++ [part]) = slashed parts ++ '/' :: part := by
  rw [slashed_append, slashed, slashed, flatMap_singleton]

variable {parts : List Text}

theorem components_slashed (h : ∀ part ∈ parts, IsName part) :
    components (slashed parts) = parts := by
  induction parts using reverseRecOn with
  | nil => rfl
  | append_singleton _ part ih =>
    rw [slashed_concat, components_append_slash,
      ih fun other hother => h other (mem_append_left _ hother),
      components_of_isName (h part (mem_append_right _ mem_cons_self))]

theorem components_displayPath (h : ∀ part ∈ parts, IsName part) :
    components (displayPath parts) = parts := by
  rw [displayPath]
  split_ifs with hnil
  · rw [hnil]
    rfl
  · exact components_slashed h

/-! ### The directory above -/

/-- One name after those that lead up and those that lead down from there. -/
def climb : ℕ × List Text → Text → ℕ × List Text
  | (up, names), part =>
    if part = parentName then if names = [] then (up + 1, []) else (up, names.dropLast)
    else (up, names ++ [part])

/-- How far names lead up from where they begin, and the names that lead down from there. -/
def relative (parts : List Text) : ℕ × List Text := parts.foldl climb (0, [])

theorem foldl_descend (above parts : List Text) :
    parts.foldl descend above =
      above.take (above.length - (relative parts).1) ++ (relative parts).2 := by
  induction parts using reverseRecOn with
  | nil => simp [relative]
  | append_singleton parts part ih =>
    have hconcat : relative (parts ++ [part]) = climb (relative parts) part := foldl_concat ..
    rw [foldl_concat, ih, hconcat, descend, climb]
    split_ifs with hpart hnames
    · rw [hnames, append_nil, append_nil, dropLast_eq_take, take_take, length_take]
      congr 1
      omega
    · exact dropLast_append_of_ne_nil hnames
    · exact append_assoc ..

end Abyssal.Text
