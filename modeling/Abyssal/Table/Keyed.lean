import Mathlib.Data.List.MinMax
import Mathlib.Data.List.Nodup

/-!
# Tables with a key

A table is a list of rows with a key, and no two rows have the same key. Finding the row
with a key and changing the row with a key are what a database does with
`WHERE id = ?`.
-/

namespace Abyssal.Table

open List

variable {α κ : Type*} [DecidableEq κ] {key : α → κ} {rows : List α}

theorem find?_eq_some_iff (h : (rows.map key).Nodup) {k : κ} {row : α} :
    rows.find? (key · = k) = some row ↔ row ∈ rows ∧ key row = k := by
  constructor
  · intro hfind
    exact ⟨mem_of_find?_eq_some hfind, by simpa using find?_some hfind⟩
  · rintro ⟨hrow, rfl⟩
    have hsome : (rows.find? (key · = key row)).isSome := by
      rw [find?_isSome]
      exact ⟨row, hrow, by simp⟩
    obtain ⟨other, hother⟩ := Option.isSome_iff_exists.1 hsome
    have hkey : key other = key row := by simpa using find?_some hother
    rw [hother, inj_on_of_nodup_map h (mem_of_find?_eq_some hother) hrow hkey]

variable (key) in
def modify (f : α → α) (k : κ) (rows : List α) : List α :=
  rows.map fun row => if key row = k then f row else row

variable {f : α → α}

theorem key_modified (hf : ∀ row, key (f row) = key row) (k : κ) (row : α) :
    key (if key row = k then f row else row) = key row := by
  split_ifs
  · exact hf row
  · rfl

theorem map_key_modify (hf : ∀ row, key (f row) = key row) (k : κ) :
    (modify key f k rows).map key = rows.map key := by
  rw [modify, map_map]
  exact map_congr_left fun row _ => key_modified hf k row

theorem find?_modify (hf : ∀ row, key (f row) = key row) (k k' : κ) :
    (modify key f k rows).find? (key · = k') =
      (rows.find? (key · = k')).map fun row => if key row = k then f row else row := by
  rw [modify, find?_map]
  refine congrArg _ (congrArg (find? · rows) (funext fun row => ?_))
  rw [Function.comp_apply, key_modified hf k row]

theorem find?_modify_self (hf : ∀ row, key (f row) = key row) (k : κ) :
    (modify key f k rows).find? (key · = k) = (rows.find? (key · = k)).map f := by
  rw [find?_modify hf]
  refine Option.map_congr fun row hrow => ?_
  have hkey : key row = k := by simpa using find?_some hrow
  rw [if_pos hkey]

theorem find?_modify_of_ne (hf : ∀ row, key (f row) = key row) {k k' : κ}
    (hne : k' ≠ k) : (modify key f k rows).find? (key · = k') = rows.find? (key · = k') := by
  rw [find?_modify hf]
  have hid : (rows.find? (key · = k')).map (fun row => if key row = k then f row else row) =
      (rows.find? (key · = k')).map id := by
    refine Option.map_congr fun row hrow => ?_
    have hkey : key row = k' := by simpa using find?_some hrow
    rw [if_neg (hkey ▸ hne)]
    rfl
  rw [hid, Option.map_id]
  rfl

/-- With a row of a new key added in any place, the key finds the row, and the other keys
find what they found before. -/
theorem find?_of_perm_cons {row : α} {rows' : List α} (h : (rows'.map key).Nodup)
    (hperm : rows'.Perm (row :: rows)) (k : κ) : rows'.find? (key · = k) =
      if key row = k then some row else rows.find? (key · = k) := by
  have hcons : ((row :: rows).map key).Nodup := (hperm.map key).nodup_iff.1 h
  have hfind : rows'.find? (key · = k) = (row :: rows).find? (key · = k) := by
    ext other
    rw [find?_eq_some_iff h, find?_eq_some_iff hcons, hperm.mem_iff]
  rw [hfind, find?_cons]
  by_cases hk : key row = k
  · rw [if_pos hk]
    simp [hk]
  · rw [if_neg hk]
    simp [hk]

theorem find?_filter_ne (k k' : κ) : (rows.filter (key · ≠ k)).find? (key · = k') =
    if k' = k then none else rows.find? (key · = k') := by
  rw [find?_filter]
  by_cases hk : k' = k
  · rw [if_pos hk, find?_eq_none]
    intro row _
    simp [hk]
  · rw [if_neg hk]
    refine congrArg (find? · rows) (funext fun row => ?_)
    by_cases hrow : key row = k'
    · simp [hrow, hk]
    · simp [hrow]

theorem filter_inj {α : Type*} {rows : List α} {p q : α → Bool} :
    rows.filter p = rows.filter q ↔ ∀ row ∈ rows, p row = q row := by
  refine ⟨fun h row hrow => Bool.eq_iff_iff.2 ?_, filter_congr⟩
  have hmem : row ∈ rows.filter p ↔ row ∈ rows.filter q := by rw [h]
  rwa [mem_filter, mem_filter, and_iff_right hrow, and_iff_right hrow] at hmem

theorem filter_key_eq {α κ : Type*} [DecidableEq κ] {rows : List α} {key : α → κ}
    (h : (rows.map key).Nodup) {row : α} (hrow : row ∈ rows) :
    rows.filter (key · = key row) = [row] := by
  obtain ⟨before, after, rfl⟩ := append_of_mem hrow
  rw [map_append, map_cons, nodup_middle, nodup_cons, ← map_append] at h
  have hne : ∀ other ∈ before ++ after, ¬key other = key row := fun other hother heq =>
    h.1 (heq ▸ mem_map_of_mem hother)
  rw [forall_mem_append] at hne
  rw [filter_append, filter_eq_nil_iff.2 (by simpa using hne.1), filter_cons,
    filter_eq_nil_iff.2 (by simpa using hne.2)]
  simp

/-!
## Tables that keep the first row of a key

A row offered to the table goes in if no row of it has its key: what a database does with
`INSERT IGNORE` and a unique key.
-/

variable (key)

def addNew (rows : List α) (row : α) : List α :=
  if key row ∈ rows.map key then rows else row :: rows

def addAll (rows offered : List α) : List α := offered.foldl (addNew key) rows

variable {key} {row : α}

theorem addNew_of_mem (h : key row ∈ rows.map key) : addNew key rows row = rows := if_pos h

theorem addNew_of_notMem (h : key row ∉ rows.map key) :
    addNew key rows row = row :: rows := if_neg h

theorem nodup_addNew (h : (rows.map key).Nodup) (row : α) :
    ((addNew key rows row).map key).Nodup := by
  by_cases hmem : key row ∈ rows.map key
  · rwa [addNew_of_mem hmem]
  · rw [addNew_of_notMem hmem]
    exact nodup_cons.2 ⟨hmem, h⟩

theorem nodup_addAll (h : (rows.map key).Nodup) (offered : List α) :
    ((addAll key rows offered).map key).Nodup := by
  induction offered generalizing rows with
  | nil => exact h
  | cons row _ ih => exact ih (nodup_addNew h row)

variable {offered : List α}

theorem mem_addAll :
    row ∈ addAll key rows offered ↔
      row ∈ rows ∨ key row ∉ rows.map key ∧ offered.find? (key · = key row) = some row := by
  induction offered generalizing rows with
  | nil => simp [addAll]
  | cons first offered ih =>
    have hcons : addAll key rows (first :: offered) =
      addAll key (addNew key rows first) offered := rfl
    rw [hcons, ih]
    by_cases hfirst : key first ∈ rows.map key
    · -- The first row is dropped, and its key is not that of a new row.
      rw [addNew_of_mem hfirst]
      refine or_congr_right (and_congr_right fun hrow => ?_)
      have hne : key first ≠ key row := fun h => hrow (h ▸ hfirst)
      rw [find?_cons_of_neg (by simpa using hne)]
    · rw [addNew_of_notMem hfirst]
      by_cases hkey : key first = key row
      · -- A row with the key of the first is in the table only if it is the first.
        rw [find?_cons_of_pos (by simpa using hkey)]
        rw [hkey] at hfirst
        simp [hkey, hfirst, eq_comm, or_comm]
      · have hne : row ≠ first := fun h => hkey (h ▸ rfl)
        rw [find?_cons_of_neg (by simpa using hkey)]
        simp [hne, Ne.symm hkey]

/-- If the rows that are there and those offered have different keys, all of them are there
afterwards. -/
theorem mem_addAll_of_injOn (hrow : row ∈ rows ∨ row ∈ offered)
    (h : row ∈ offered → ∀ row' ∈ rows ++ offered, key row = key row' → row = row') :
    row ∈ addAll key rows offered := by
  rw [mem_addAll]
  rcases hrow with hrow | hrow
  · exact .inl hrow
  · by_cases hmem : key row ∈ rows.map key
    · obtain ⟨row', hrow', hkey⟩ := mem_map.1 hmem
      exact .inl (h hrow row' (mem_append_left _ hrow') hkey.symm ▸ hrow')
    · refine .inr ⟨hmem, ?_⟩
      cases hfind : offered.find? (key · = key row) with
      | none =>
        have hnone := find?_eq_none.1 hfind row hrow
        exact absurd (decide_eq_true rfl) hnone
      | some row' =>
        have hkey : key row' = key row := by simpa using find?_some hfind
        have hoffered := mem_append_right rows (mem_of_find?_eq_some hfind)
        rw [h hrow row' hoffered hkey.symm]

theorem mem_addAll_and_notMem :
    row ∈ addAll key rows offered ∧ row ∉ rows ↔
      key row ∉ rows.map key ∧ offered.find? (key · = key row) = some row := by
  rw [mem_addAll]
  constructor
  · rintro ⟨hrow | hrow, hnot⟩
    · exact absurd hrow hnot
    · exact hrow
  · intro hrow
    exact ⟨.inr hrow, fun h => hrow.1 (mem_map_of_mem h)⟩

/-!
## The first of the largest entries

A loop that replaces what it has by an entry only where this is larger ends with the first of the
largest ones.
-/

open Option

/-- One turn of the loop, over the entries for which `p` holds. -/
def better {β : Type*} (p : α → Bool) (size : α → ℕ) (value : α → β) (best : Option (ℕ × β))
    (e : α) : Option (ℕ × β) :=
  if p e && best.all (·.1 < size e) then some (size e, value e) else best

theorem foldl_better {β : Type*} (p : α → Bool) (size : α → ℕ) (value : α → β) (es : List α) :
    es.foldl (better p size value) none =
      ((es.filter p).argmax size).map fun e => (size e, value e) := by
  induction es using reverseRecOn with
  | nil => rfl
  | append_singleton es e ih =>
    rw [foldl_concat, ih, filter_append, better]
    cases he : p e with
    | false => simp [he]
    | true =>
      rw [filter_cons_of_pos he, filter_nil, argmax_concat]
      cases argmax size (es.filter p) with
      | none => rfl
      | some =>
        simp only [map_some, all_some, Bool.true_and, decide_eq_true_eq]
        split_ifs <;> rfl

end Abyssal.Table
