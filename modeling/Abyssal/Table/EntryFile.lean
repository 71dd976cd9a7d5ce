import Abyssal.Table.Keyed
import Abyssal.Text.Basic

/-!
# Files that are read, edited and written as a whole

A program keeps a map in a file. To change the entry of one key it reads the whole file into a
list of entries, edits the list and writes all of it. What the file stands for afterwards
depends on what becomes of each entry that is written and read back.
-/

namespace Abyssal.Table

open List

variable {ε κ : Type*} [DecidableEq κ] {key : ε → κ} {entries : List ε}

variable (key) in
/-- The entries, with one that takes the place of the first with its key, or comes last. -/
def put (entry : ε) : List ε → List ε
  | [] => [entry]
  | e :: entries => if key e = key entry then entry :: entries else e :: put entry entries

theorem mem_put_self (entry : ε) : entry ∈ put key entry entries := by
  fun_induction put key entry entries with
  | case1 => exact mem_singleton_self entry
  | case2 => exact mem_cons_self
  | case3 _ _ _ ih => exact mem_cons_of_mem _ ih

theorem eq_or_mem_of_mem_put {entry e : ε} (h : e ∈ put key entry entries) :
    e = entry ∨ e ∈ entries := by
  fun_induction put key entry entries with
  | case1 => exact .inl (mem_singleton.1 h)
  | case2 => exact (mem_cons.1 h).imp_right (mem_cons_of_mem _)
  | case3 _ _ _ ih =>
    rcases mem_cons.1 h with rfl | h
    · exact .inr mem_cons_self
    · exact (ih h).imp_right (mem_cons_of_mem _)

theorem find?_put (entry : ε) (k : κ) :
    (put key entry entries).find? (key · = k) =
      if k = key entry then some entry else entries.find? (key · = k) := by
  by_cases hk : k = key entry
  · subst hk
    rw [if_pos rfl]
    fun_induction put key entry entries with
    | case1 => simp
    | case2 => simp
    | case3 _ _ hne ih => rw [find?_cons_of_neg (by simpa using hne), ih]
  · rw [if_neg hk]
    fun_induction put key entry entries with
    | case1 => rw [find?_cons_of_neg (by simpa using Ne.symm hk)]
    | case2 _ _ he =>
      rw [find?_cons_of_neg (by simpa using Ne.symm hk),
        find?_cons_of_neg (by simpa [he] using Ne.symm hk)]
    | case3 _ _ _ ih => rw [find?_cons, find?_cons, ih]

theorem map_key_put (entry : ε) :
    (put key entry entries).map key =
      if key entry ∈ entries.map key then entries.map key else entries.map key ++ [key entry] := by
  fun_induction put key entry entries with
  | case1 => rfl
  | case2 _ _ he => rw [if_pos (by simp [he]), map_cons, map_cons, he]
  | case3 _ _ hne ih =>
    rw [map_cons, ih, map_cons]
    simp only [mem_cons, Ne.symm hne, false_or]
    split_ifs
    · rfl
    · rfl

theorem nodup_map_key_put (entry : ε) (h : (entries.map key).Nodup) :
    ((put key entry entries).map key).Nodup := by
  rw [map_key_put]
  split_ifs with hmem
  · exact h
  · exact h.append (nodup_singleton _) (by simpa using hmem)

end Abyssal.Table

namespace Abyssal

/-- How the entries of a file are written and read. Only some entries may be set. -/
structure EntryFormat (ε κ : Type*) where
  key : ε → κ
  Settable : ε → Prop
  parse : Text → List ε
  render : List ε → Text
  /-- what is read of an entry that was written -/
  reading : ε → Option ε
  parse_nil : parse [] = []
  parse_render : ∀ entries, (∀ e ∈ entries, Settable e) →
    parse (render entries) = entries.filterMap reading
  key_of_reading : ∀ e e', Settable e → reading e = some e' → key e' = key e

inductive Edit (ε κ : Type*) where
  | put (entry : ε)
  | remove (k : κ)
  | clear

variable {ε κ : Type*} [DecidableEq κ] (key : ε → κ)

def Edit.apply : Edit ε κ → List ε → List ε
  | .put entry, entries => Table.put key entry entries
  | .remove k, entries => entries.filter (key · ≠ k)
  | .clear, _ => []

def Edit.onMap : Edit ε κ → (κ → Option ε) → κ → Option ε
  | .put entry, m, k => if k = key entry then some entry else m k
  | .remove k', m, k => if k = k' then none else m k
  | .clear, _, _ => none

/-- The edit decides what the key has afterwards. -/
def Edit.Touches : Edit ε κ → κ → Prop
  | .put entry, k => k = key entry
  | .remove k', k => k = k'
  | .clear, _ => True

variable (edit : Edit ε κ)

theorem Edit.find?_apply (entries : List ε) (k : κ) :
    (edit.apply key entries).find? (key · = k) =
      edit.onMap key (fun k => entries.find? (key · = k)) k := by
  cases edit with
  | put entry => exact Table.find?_put entry k
  | remove k' => exact Table.find?_filter_ne k' k
  | clear => rfl

theorem Edit.nodup_apply {key : ε → κ} {entries : List ε}
    (h : (entries.map key).Nodup) : ((edit.apply key entries).map key).Nodup := by
  cases edit with
  | put entry => exact Table.nodup_map_key_put entry h
  | remove => exact h.sublist (List.filter_sublist.map key)
  | clear => exact List.nodup_nil

theorem Edit.onMap_eq_iff {key : ε → κ} {m m' : κ → Option ε} {k : κ} :
    edit.onMap key m k = edit.onMap key m' k ↔ edit.Touches key k ∨ m k = m' k := by
  cases edit with
  | put | remove =>
    simp only [onMap, Touches]
    split_ifs with hk <;> simp [hk]
  | clear => simp [onMap, Touches]

namespace EntryFormat

variable (F : EntryFormat ε κ)

/-- The text that an edit writes, if this was read. -/
def after (content : Text) : Text :=
  F.render (edit.apply F.key (F.parse content))

def MaySet : Edit ε κ → Prop
  | .put entry => F.Settable entry
  | _ => True

/-- What the edit puts in is read back as it is. -/
def Keeps : Edit ε κ → Prop
  | .put entry => F.reading entry = some entry
  | _ => True

def ReadsAs (content : Text) (m : κ → Option ε) : Prop :=
  ∀ k, (F.parse content).find? (F.key · = k) = m k

/-- The text is read as the map, and each of its entries is written and read as it is. -/
structure Mirrors (content : Text) (m : κ → Option ε) : Prop where
  keys : ((F.parse content).map F.key).Nodup
  settable : ∀ e ∈ F.parse content, F.Settable e
  reading : ∀ e ∈ F.parse content, F.reading e = some e
  readsAs : F.ReadsAs content m

theorem mirrors_nil : F.Mirrors [] fun _ => none := by
  refine ⟨?_, ?_, ?_, ?_⟩
  all_goals simp [F.parse_nil, ReadsAs]

variable {F} {edit : Edit ε κ} {content : Text} {m m' : κ → Option ε}

theorem mem_apply (F : EntryFormat ε κ) {P : ε → Prop} (hedit : ∀ e, edit = .put e → P e)
    (h : ∀ e ∈ F.parse content, P e) : ∀ e ∈ edit.apply F.key (F.parse content), P e := by
  intro e he
  cases edit with
  | put =>
    rcases Table.eq_or_mem_of_mem_put he with rfl | he
    · exact hedit e rfl
    · exact h e he
  | remove => exact h e (List.mem_of_mem_filter he)
  | clear => cases he

theorem Mirrors.settable_apply (h : F.Mirrors content m) (hset : F.MaySet edit) :
    ∀ e ∈ edit.apply F.key (F.parse content), F.Settable e :=
  F.mem_apply (fun _ he => by subst he; exact hset) h.settable

theorem Mirrors.parse_after (h : F.Mirrors content m) (hset : F.MaySet edit) :
    F.parse (F.after edit content) = (edit.apply F.key (F.parse content)).filterMap F.reading :=
  F.parse_render _ (h.settable_apply hset)

theorem Mirrors.after (h : F.Mirrors content m) (hset : F.MaySet edit) (hkeeps : F.Keeps edit) :
    F.Mirrors (F.after edit content) (edit.onMap F.key m) := by
  have hreading : ∀ e ∈ edit.apply F.key (F.parse content), F.reading e = some e :=
    F.mem_apply (fun _ he => by subst he; exact hkeeps) h.reading
  have hparse : F.parse (F.after edit content) = edit.apply F.key (F.parse content) := by
    rw [h.parse_after hset, List.filterMap_congr hreading, List.filterMap_some]
  refine ⟨?_, ?_, ?_, ?_⟩
  · rw [hparse]
    exact edit.nodup_apply h.keys
  · rw [hparse]
    exact h.settable_apply hset
  · rwa [hparse]
  · intro k
    rw [hparse, edit.find?_apply, funext h.readsAs]

theorem Mirrors.keeps_of_readsAs (h : F.Mirrors content m) (hset : F.MaySet edit)
    (hreads : F.ReadsAs (F.after edit content) (edit.onMap F.key m')) : F.Keeps edit := by
  cases edit with
  | remove | clear => trivial
  | put entry =>
    have hfind := hreads (F.key entry)
    rw [h.parse_after hset, Edit.onMap, if_pos rfl] at hfind
    obtain ⟨e, he, hentry⟩ := List.mem_filterMap.1 (List.mem_of_find?_eq_some hfind)
    -- the entry it was read from has the same key, so it is the one that was put in
    have hkey := F.key_of_reading e entry (h.settable_apply hset e he) hentry
    have heq : e = entry := List.inj_on_of_nodup_map ((Edit.put entry).nodup_apply h.keys) he
        (Table.mem_put_self entry) hkey.symm
    subst heq
    exact hentry

theorem Mirrors.readsAs_after_iff (h : F.Mirrors content m) (hset : F.MaySet edit) :
    F.ReadsAs (F.after edit content) (edit.onMap F.key m') ↔
      F.Keeps edit ∧ ∀ k, edit.Touches F.key k ∨ m k = m' k := by
  constructor
  · intro hreads
    have hkeeps := h.keeps_of_readsAs hset hreads
    refine ⟨hkeeps, fun k => edit.onMap_eq_iff.1 ?_⟩
    rw [← hreads k, (h.after hset hkeeps).readsAs k]
  · rintro ⟨hkeeps, hsame⟩ k
    rw [(h.after hset hkeeps).readsAs k]
    exact edit.onMap_eq_iff.2 (hsame k)

end EntryFormat

end Abyssal
