import Abyssal.Machine.Guarded
import Mathlib.Data.List.Sort

/-!
# Reading behind a watermark

A reader lists so many rows with keys above a stored cursor, hands them over one by one, and then
moves the cursor to the last of them. Any of this may fail, and then nothing of the batch is stored.
What becomes visible below the cursor, or below a batch that is under way, is not handed over.
-/

namespace Abyssal.Machine.Watermark

open List

variable {K : Type} [LinearOrder K]

/-- The rows are given by their keys. Those that became visible after the start are kept apart; no
step reads it. -/
structure State (K : Type) where
  visible : List K
  cursor : K
  /-- The rows of the batch that are still to be handed over. -/
  pending : List K
  last : Option K
  handed : List K
  inserted : List K

inductive Event (K : Type) where
  | insert (key : K)
  | list
  | hand
  | store
  | fail

namespace State

variable (limit : ℕ) (s : State K)

def listAfter : List K :=
  ((s.visible.filter (s.cursor < ·)).insertionSort (· ≤ ·)).take limit

def step : Event K → State K
  | .insert key => { s with visible := key :: s.visible, inserted := key :: s.inserted }
  | .list => { s with pending := s.listAfter limit, last := (s.listAfter limit).getLast? }
  | .hand =>
    { s with pending := s.pending.tail, handed := s.pending.head?.toList ++ s.handed }
  | .store =>
    if s.pending = [] then { s with cursor := s.last.getD s.cursor, last := none } else s
  | .fail => { s with pending := [], last := none }

def Ascends : Event K → Prop
  | .insert key => s.cursor < key ∧ ∀ last ∈ s.last, last < key
  | _ => True

/-- The cursor has not passed a row that was not handed over. -/
def NonePassed : Prop := ∀ key ∈ s.inserted, key ≤ s.cursor → key ∈ s.handed

def tick : State K :=
  (.list :: (replicate (s.listAfter limit).length .hand ++ [.store])).foldl (step limit) s

/-- What is known of the rows of a batch: a row not above its last one is in it, or is handed over
already. -/
structure Followed : Prop where
  visible : ∀ key ∈ s.inserted, key ∈ s.visible
  passed : s.NonePassed
  batch : ∀ key ∈ s.inserted, ∀ last ∈ s.last, key ≤ last → key ∈ s.handed ∨ key ∈ s.pending

end State

variable {limit : ℕ} {s : State K}

theorem State.mem_listAfter {key last : K} (hkey : key ∈ s.visible) (hcursor : s.cursor < key)
    (hlast : last ∈ s.listAfter limit) (hle : key ≤ last) : key ∈ s.listAfter limit := by
  have hsorted := pairwise_insertionSort (· ≤ ·) (s.visible.filter (s.cursor < ·))
  have hmem : key ∈ (s.visible.filter (s.cursor < ·)).insertionSort (· ≤ ·) :=
    (mem_insertionSort _).2 (mem_filter.2 ⟨hkey, decide_eq_true hcursor⟩)
  rw [listAfter] at hlast ⊢
  rw [← take_append_drop limit (insertionSort _ _)] at hmem hsorted
  rcases mem_append.1 hmem with hmem | hmem
  · exact hmem
  · have hge := (pairwise_append.1 hsorted).2.2 last hlast key hmem
    rwa [le_antisymm hle hge]

theorem State.cursor_lt_of_mem_listAfter {key : K} (h : key ∈ s.listAfter limit) :
    key ∈ s.visible ∧ s.cursor < key := by
  have hmem := (mem_insertionSort _).1 (mem_of_mem_take h)
  exact ⟨mem_of_mem_filter hmem, of_decide_eq_true (mem_filter.1 hmem).2⟩

theorem State.Followed.step (h : s.Followed) (e : Event K) (hok : s.Ascends e) :
    (s.step limit e).Followed := by
  cases e with
  | insert =>
    refine ⟨fun other hother => ?_, fun other hother hle => ?_,
      fun other hother last hlast hle => ?_⟩
    · rcases mem_cons.1 hother with rfl | hother
      · exact mem_cons_self
      · exact mem_cons_of_mem _ (h.visible other hother)
    · rcases mem_cons.1 hother with rfl | hother
      · exact absurd hok.1 (not_lt.2 hle)
      · exact h.passed other hother hle
    · rcases mem_cons.1 hother with rfl | hother
      · exact absurd (hok.2 last hlast) (not_lt.2 hle)
      · exact h.batch other hother last hlast hle
  | list =>
    refine ⟨h.visible, h.passed, fun key hkey last hlast hle => ?_⟩
    rcases le_or_gt key s.cursor with hcursor | hcursor
    · exact .inl (h.passed key hkey hcursor)
    · exact .inr (mem_listAfter (h.visible key hkey) hcursor (mem_of_getLast? hlast) hle)
  | hand =>
    have hkeep : ∀ key, key ∈ s.handed ∨ key ∈ s.pending →
        key ∈ s.pending.head?.toList ++ s.handed ∨ key ∈ s.pending.tail := by
      cases s.pending with
      | nil => simp
      | cons =>
        simp only [head?_cons, Option.toList_some, singleton_append, tail_cons, mem_cons]
        tauto
    refine ⟨h.visible, fun key hkey hle => ?_, fun key hkey last hlast hle =>
      hkeep key (h.batch key hkey last hlast hle)⟩
    exact mem_append_right _ (h.passed key hkey hle)
  | store =>
    rw [State.step]
    split_ifs with hpending
    · refine ⟨h.visible, fun key hkey hle => ?_, fun _ _ _ hlast => ?_⟩
      · cases hlast : s.last with
        | none => exact h.passed key hkey (by simpa [hlast] using hle)
        | some last =>
          refine (h.batch key hkey last hlast (by simpa [hlast] using hle)).resolve_right ?_
          rw [hpending]
          exact not_mem_nil
      · exact absurd hlast (Option.not_mem_none _)
    · exact h
  | fail => exact ⟨h.visible, h.passed, fun _ _ _ hlast => absurd hlast (Option.not_mem_none _)⟩

/-! ### Catching up -/

theorem State.foldl_hand (n : ℕ) (s : State K) :
    (replicate n .hand).foldl (step limit) s =
      { s with pending := s.pending.drop n, handed := (s.pending.take n).reverse ++ s.handed } := by
  induction n generalizing s with
  | zero => rfl
  | succ n ih =>
    rw [replicate_succ, foldl_cons, ih, step]
    cases hpending : s.pending <;> simp

theorem State.tick_eq : s.tick limit = { s with
      cursor := (s.listAfter limit).getLast?.getD s.cursor
      pending := []
      last := none
      handed := (s.listAfter limit).reverse ++ s.handed } := by
  rw [tick, foldl_cons, foldl_append, foldl_hand, foldl_cons]
  simp [step]

theorem State.followed_tick (h : s.Followed) : (s.tick limit).Followed := by
  have hall : ∀ e ∈ (.list :: (replicate (s.listAfter limit).length .hand ++ [.store]) :
      List (Event K)), ∀ t : State K, t.Ascends e := by
    intro e he t
    simp only [mem_cons, mem_append, mem_replicate, not_mem_nil, or_false] at he
    rcases he with rfl | ⟨-, rfl⟩ | rfl <;> trivial
  have hreached : Reached (step limit) Ascends s (s.tick limit) := reached_foldl hall s
  exact hreached.inv h fun _ e h hok => h.step e hok

def State.remaining (s : State K) : ℕ := (s.visible.filter (s.cursor < ·)).length

theorem State.remaining_tick_lt (hlimit : 0 < limit) (h : 0 < s.remaining) :
    (s.tick limit).remaining < s.remaining := by
  have hne : s.listAfter limit ≠ [] := by
    rw [listAfter, ← length_pos_iff, length_take, length_insertionSort]
    exact lt_min hlimit h
  obtain ⟨hvisible, hlt⟩ := cursor_lt_of_mem_listAfter (getLast_mem hne)
  have hcursor : (s.tick limit).cursor = (s.listAfter limit).getLast hne := by
    rw [tick_eq, getLast?_eq_getLast_of_ne_nil hne, Option.getD_some]
  have hrows : (s.tick limit).visible = s.visible := by rw [tick_eq]
  have hfilter : (s.visible.filter (s.cursor < ·)).filter ((s.tick limit).cursor < ·) =
      s.visible.filter ((s.tick limit).cursor < ·) := by
    rw [filter_filter]
    refine filter_congr fun key _ => ?_
    simp only [hcursor, Bool.and_eq_left_iff_imp, decide_eq_true_iff]
    exact hlt.trans
  rw [remaining, hrows, ← hfilter, remaining, length_filter_lt_length_iff_exists]
  refine ⟨_, mem_filter.2 ⟨hvisible, decide_eq_true hlt⟩, ?_⟩
  simp [hcursor]

theorem State.Followed.handed_iterate (hlimit : 0 < limit) {n : ℕ} (h : s.Followed)
    (hn : s.remaining ≤ n) : ∀ key ∈ s.inserted, key ∈ ((tick limit)^[n] s).handed := by
  induction n generalizing s with
  | zero =>
    intro key hkey
    refine h.passed key hkey (not_lt.1 fun hlt => ?_)
    have hmem : key ∈ s.visible.filter (s.cursor < ·) :=
      mem_filter.2 ⟨h.visible key hkey, decide_eq_true hlt⟩
    exact absurd (length_pos_of_mem hmem) (Nat.not_lt.2 hn)
  | succ n ih =>
    intro key hkey
    rw [Function.iterate_succ_apply]
    refine ih (followed_tick h) ?_ key (by rw [tick_eq]; exact hkey)
    rcases Nat.eq_zero_or_pos s.remaining with hzero | hpos
    · have hnil : s.listAfter limit = [] := by
        rw [listAfter, length_eq_zero_iff.1 hzero]
        simp
      have hsame : (s.tick limit).remaining = s.remaining := by simp [tick_eq, hnil, remaining]
      omega
    · have := remaining_tick_lt hlimit hpos
      omega

end Abyssal.Machine.Watermark
