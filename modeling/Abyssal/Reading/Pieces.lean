import Mathlib.Data.List.Basic

/-!
# Cutting a list into pieces

A list is cut into pieces of one length, of which the last may be shorter. There is always a last
piece, and it is empty only if the list is.
-/

namespace Abyssal.Reading

open List

variable {β : Type*}

def pieces (n : ℕ) (l : List β) : List (List β) :=
  if _h : 0 < n ∧ n < l.length then l.take n :: pieces n (l.drop n) else [l]
termination_by l.length
decreasing_by
  rw [length_drop]
  omega

variable {l : List β} {n : ℕ}

open Nat

theorem pieces_of_le (h : l.length ≤ n) : pieces n l = [l] := by
  rw [pieces, dif_neg fun hlt => absurd hlt.2 (Nat.not_lt.2 h)]

theorem pieces_of_lt (hn : 0 < n) (h : n < l.length) :
    pieces n l = l.take n :: pieces n (l.drop n) := by
  rw [pieces, dif_pos ⟨hn, h⟩]

theorem flatten_pieces (n : ℕ) (l : List β) : (pieces n l).flatten = l := by
  fun_induction pieces n l with
  | case1 l h ih => rw [flatten_cons, ih, take_append_drop]
  | case2 => simp

theorem pieces_ne_nil (n : ℕ) (l : List β) : pieces n l ≠ [] := by
  rw [pieces]
  split_ifs
  all_goals exact cons_ne_nil _ _

theorem pieces_append (hn : 0 < n) {piece : List β} (hpiece : piece.length = n)
    (hl : l ≠ []) : pieces n (piece ++ l) = piece :: pieces n l := by
  have hpos := length_pos_iff.2 hl
  rw [pieces_of_lt hn (by rw [length_append]; omega), take_left' hpiece, drop_left' hpiece]

variable {front : List (List β)}

theorem pieces_concat (hn : 0 < n) {last : List β}
    (hfront : ∀ piece ∈ front, piece.length = n) (hlast : last.length ≤ n) (hne : last ≠ []) :
    pieces n (front ++ [last]).flatten = front ++ [last] := by
  induction front with
  | nil =>
    rw [nil_append, flatten_singleton]
    exact pieces_of_le hlast
  | cons piece front ih =>
    have hrest : (front ++ [last]).flatten ≠ [] := by
      simp [hne]
    rw [cons_append, flatten_cons, pieces_append hn (hfront piece mem_cons_self) hrest,
      ih fun other hmem => hfront other (mem_cons_of_mem _ hmem)]

def firstPieces (n : ℕ) : ℕ → List β → List (List β)
  | 0, _ => []
  | k + 1, l => l.take n :: firstPieces n k (l.drop n)

theorem length_firstPieces (n k : ℕ) (l : List β) : (firstPieces n k l).length = k := by
  induction k generalizing l with
  | zero => rfl
  | succ k ih => rw [firstPieces, length_cons, ih]

theorem length_of_mem_firstPieces {k : ℕ} {piece : List β} (h : k * n ≤ l.length)
    (hpiece : piece ∈ firstPieces n k l) : piece.length = n := by
  induction k generalizing l with
  | zero => cases hpiece
  | succ k ih =>
    rw [succ_mul] at h
    rcases mem_cons.1 hpiece with rfl | hpiece
    · exact length_take_of_le (by omega)
    · exact ih (by rw [length_drop]; omega) hpiece

theorem pieces_eq_firstPieces {k : ℕ} (hn : 0 < n)
    (hlt : k * n < l.length ∨ k = 0) (hle : l.length ≤ (k + 1) * n) :
    pieces n l = firstPieces n k l ++ [l.drop (k * n)] := by
  induction k generalizing l with
  | zero =>
    rw [Nat.zero_mul]
    exact pieces_of_le (by omega)
  | succ k ih =>
    have hmul : (k + 1) * n = k * n + n := succ_mul k n
    have hmul' : (k + 1 + 1) * n = (k + 1) * n + n := succ_mul (k + 1) n
    have hlt' : (k + 1) * n < l.length := hlt.resolve_right k.succ_ne_zero
    have hdrop : k * n < (l.drop n).length := by
      rw [length_drop]
      omega
    have hdrop' : (l.drop n).length ≤ (k + 1) * n := by
      rw [length_drop]
      omega
    rw [pieces_of_lt hn (by omega), ih (.inl hdrop) hdrop', drop_drop, firstPieces,
      cons_append, succ_mul, Nat.add_comm n]

/-! ### Numbers -/

structure Numbered (β : Type*) where
  number : ℕ
  last : Bool
  piece : List β

def numbered : ℕ → List (List β) → List (Numbered β)
  | _, [] => []
  | i, [piece] => [⟨i, true, piece⟩]
  | i, piece :: next :: rest => ⟨i, false, piece⟩ :: numbered (i + 1) (next :: rest)

variable {i : ℕ} {ps : List (List β)}

theorem numbered_ne_nil (h : ps ≠ []) : numbered i ps ≠ [] := by
  cases ps with
  | nil => exact absurd rfl h
  | cons _ rest =>
    cases rest with
    | nil | cons => exact cons_ne_nil _ _

variable {x : Numbered β}

theorem le_of_mem_numbered (h : x ∈ numbered i ps) : i ≤ x.number := by
  fun_induction numbered i ps with
  | case1 => cases h
  | case2 i =>
    obtain rfl := mem_singleton.1 h
    exact Nat.le_refl i
  | case3 i _ _ _ ih =>
    rcases mem_cons.1 h with rfl | h
    · exact Nat.le_refl i
    · exact le_of_succ_le (ih h)

theorem eq_of_mem_numbered (h : x ∈ numbered i ps) (hx : x.number = i) :
    ∃ piece rest, ps = piece :: rest ∧ x = ⟨i, rest.isEmpty, piece⟩ := by
  cases ps with
  | nil => cases h
  | cons piece rest =>
    cases rest with
    | nil => exact ⟨piece, [], rfl, mem_singleton.1 h⟩
    | cons next rest =>
      rcases mem_cons.1 h with rfl | h
      · exact ⟨piece, next :: rest, rfl, rfl⟩
      · exact absurd (le_of_mem_numbered h) (by omega)

theorem eq_of_numbered_subset {ps' : List (List β)} (hne : ps' ≠ [])
    (h : ∀ x ∈ numbered i ps', x ∈ numbered i ps) : ps' = ps := by
  induction ps' generalizing i ps with
  | nil => exact absurd rfl hne
  | cons piece' rest' ih =>
    cases rest' with
    | nil =>
      obtain ⟨piece, rest, rfl, heq⟩ := eq_of_mem_numbered (h _ mem_cons_self) rfl
      obtain ⟨-, hlast, rfl⟩ := (Numbered.mk.injEq ..).mp heq
      rw [isEmpty_iff.1 hlast.symm]
    | cons =>
      obtain ⟨_, rest, rfl, heq⟩ := eq_of_mem_numbered (h _ mem_cons_self) rfl
      obtain ⟨-, hlast, rfl⟩ := (Numbered.mk.injEq ..).mp heq
      cases rest with
      | nil => cases hlast
      | cons =>
        refine congrArg (piece' :: ·) (ih (i := i + 1) (cons_ne_nil _ _) fun x hx => ?_)
        -- The pieces after the first have higher numbers than the first.
        rcases mem_cons.1 (h x (mem_cons_of_mem _ hx)) with rfl | hmem
        · exact absurd (le_of_mem_numbered hx) (not_succ_le_self i)
        · exact hmem

theorem numbered_map (g : Numbered β → List β) (i : ℕ) (ps : List (List β)) :
    numbered i ((numbered i ps).map g) = (numbered i ps).map fun x => ⟨x.number, x.last, g x⟩ := by
  fun_induction numbered i ps with
  | case1 => rfl
  | case2 => rfl
  | case3 _ _ next rest ih =>
    obtain ⟨_, _, hsplit⟩ := exists_cons_of_ne_nil
      (mt map_eq_nil_iff.1 (numbered_ne_nil (cons_ne_nil next rest)))
    rw [map_cons, map_cons, ← ih, hsplit, numbered]

/-- Pieces none of which is the last, with their numbers from `i` on. -/
def numberedFront : ℕ → List (List β) → List (Numbered β)
  | _, [] => []
  | i, piece :: rest => ⟨i, false, piece⟩ :: numberedFront (i + 1) rest

theorem numbered_concat (i : ℕ) (front : List (List β)) (last : List β) :
    numbered i (front ++ [last]) = numberedFront i front ++ [⟨i + front.length, true, last⟩] := by
  induction front generalizing i with
  | nil => rfl
  | cons piece front ih =>
    have hcons : numbered i (piece :: (front ++ [last])) =
        ⟨i, false, piece⟩ :: numbered (i + 1) (front ++ [last]) := by
      cases front with
      | nil | cons => rfl
    rw [cons_append, hcons, ih, Nat.add_right_comm i 1]
    rfl

theorem piece_mem_of_mem_numberedFront (h : x ∈ numberedFront i front) : x.piece ∈ front := by
  induction front generalizing i with
  | nil => cases h
  | cons _ _ ih =>
    rcases mem_cons.1 h with rfl | h
    · exact mem_cons_self
    · exact mem_cons_of_mem _ (ih h)

theorem number_lt_of_mem_numberedFront
    (h : x ∈ numberedFront i front) : x.number < i + front.length := by
  induction front generalizing i with
  | nil => cases h
  | cons _ _ ih =>
    rw [length_cons]
    rcases mem_cons.1 h with rfl | h
    · exact Nat.lt_add_of_pos_right (succ_pos _)
    · have hlt := ih h
      omega

theorem pieces_eq_cons (hn : 0 < n) (l : List β) :
    pieces n l = l.take n :: if l.drop n = [] then [] else pieces n (l.drop n) := by
  by_cases h : l.length ≤ n
  · rw [pieces_of_le h, take_of_length_le h, if_pos (drop_of_length_le h)]
  · have hdrop : l.drop n ≠ [] := fun hnil => h (drop_eq_nil_iff.1 hnil)
    rw [pieces_of_lt hn (Nat.lt_of_not_le h), if_neg hdrop]

end Abyssal.Reading
