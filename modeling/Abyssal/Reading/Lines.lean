import Mathlib.Data.List.Infix

/-!
# Reading lines of a growing file

One kind of item ends a line. A reader at the beginning of a line takes the items up to its end, or
all there are if the line is not finished yet. The file grows at its end, and nothing that the
reader has seen of complete lines changes thereby.
-/

namespace Abyssal.Reading

open List

variable {β : Type*} [DecidableEq β] (nl : β)

/-- The items up to the end of the first line, or all if it has no end. -/
def upTo : List β → List β
  | [] => []
  | b :: bs => if b = nl then [b] else b :: upTo bs

def cut : List β → List (List β) × List β
  | [] => ([], [])
  | b :: bs =>
    if b = nl then ([b] :: (cut bs).1, (cut bs).2)
    else
      match (cut bs).1 with
      | [] => ([], b :: (cut bs).2)
      | line :: lines => ((b :: line) :: lines, (cut bs).2)

def completeLines (bs : List β) : List (List β) := (cut nl bs).1

def unfinished (bs : List β) : List β := (cut nl bs).2

def offset (bs : List β) (j : ℕ) : ℕ := ((completeLines nl bs).take j).flatten.length

variable {nl} {bs : List β}

theorem upTo_of_not_mem (h : nl ∉ bs) : upTo nl bs = bs := by
  induction bs with
  | nil => rfl
  | cons b _ ih =>
    have hb : b ≠ nl := fun hb => h (hb ▸ mem_cons_self)
    rw [upTo, if_neg hb, ih fun hbs => h (mem_cons_of_mem _ hbs)]

theorem upTo_append_cons {body : List β} (h : nl ∉ body) (bs : List β) :
    upTo nl (body ++ nl :: bs) = body ++ [nl] := by
  induction body with
  | nil => rw [nil_append, upTo, if_pos rfl, nil_append]
  | cons b _ ih =>
    have hb : b ≠ nl := fun hb => h (hb ▸ mem_cons_self)
    rw [cons_append, upTo, if_neg hb, ih fun hbody => h (mem_cons_of_mem _ hbody), cons_append]

theorem length_upTo_le (bs : List β) : (upTo nl bs).length ≤ bs.length := by
  by_cases h : nl ∈ bs
  · obtain ⟨_, _, rfl, hbody⟩ := eq_append_cons_of_mem h
    rw [upTo_append_cons hbody]
    simp
  · rw [upTo_of_not_mem h]

theorem flatten_append_unfinished (bs : List β) :
    (completeLines nl bs).flatten ++ unfinished nl bs = bs := by
  induction bs with
  | nil => rfl
  | cons b bs ih =>
    rw [completeLines, unfinished] at ih ⊢
    rw [cut]
    split_ifs
    · rw [flatten_cons, append_assoc, ih, singleton_append]
    · cases hcut : (cut nl bs).1 with
      | nil | cons =>
        rw [hcut] at ih
        exact congrArg (b :: ·) ih

variable {line : List β}

theorem exists_of_mem_completeLines (h : line ∈ completeLines nl bs) :
    ∃ body, line = body ++ [nl] ∧ nl ∉ body := by
  induction bs generalizing line with
  | nil => cases h
  | cons b bs ih =>
    rw [completeLines, cut] at h
    split_ifs at h with hb
    · rcases mem_cons.1 h with rfl | h
      · exact ⟨[], by rw [hb, nil_append], not_mem_nil⟩
      · exact ih h
    · cases hcut : (cut nl bs).1 with
      | nil =>
        rw [hcut] at h
        cases h
      | cons line' =>
        rw [hcut] at h
        rcases mem_cons.1 h with rfl | h
        · obtain ⟨body, rfl, hbody⟩ := ih (show line' ∈ (cut nl bs).1 from hcut ▸ mem_cons_self)
          refine ⟨b :: body, rfl, fun hmem => ?_⟩
          rcases mem_cons.1 hmem with hnl | hnl
          · exact hb hnl.symm
          · exact hbody hnl
        · exact ih (show line ∈ (cut nl bs).1 from hcut ▸ mem_cons_of_mem _ h)

theorem not_mem_unfinished (bs : List β) : nl ∉ unfinished nl bs := by
  induction bs with
  | nil => exact not_mem_nil
  | cons b bs ih =>
    rw [unfinished, cut]
    split_ifs with hb
    · exact ih
    · cases hcut : (cut nl bs).1 with
      | nil =>
        intro hmem
        rcases mem_cons.1 hmem with hnl | hnl
        · exact hb hnl.symm
        · exact ih hnl
      | cons => exact ih

theorem drop_offset (bs : List β) (j : ℕ) :
    bs.drop (offset nl bs j) = ((completeLines nl bs).drop j).flatten ++ unfinished nl bs := by
  have hbs : bs = ((completeLines nl bs).take j).flatten ++
      (((completeLines nl bs).drop j).flatten ++ unfinished nl bs) := by
    rw [← append_assoc, ← flatten_append, take_append_drop, flatten_append_unfinished]
  rw [offset]
  generalize completeLines nl bs = lines, unfinished nl bs = tail at hbs ⊢
  rw [hbs, drop_left]

theorem offset_succ {j : ℕ} (h : (completeLines nl bs)[j]? = some line) :
    offset nl bs (j + 1) = offset nl bs j + line.length := by
  rw [offset, offset, take_add_one, h]
  simp

theorem offset_mono {j j' : ℕ} (h : j ≤ j') : offset nl bs j ≤ offset nl bs j' := by
  have hbegin := (take_prefix_take_left h (l := completeLines nl bs)).flatten
  exact hbegin.length_le

theorem length_pos_of_getElem? {j : ℕ}
    (h : (completeLines nl bs)[j]? = some line) : 0 < line.length := by
  obtain ⟨_, rfl, -⟩ := exists_of_mem_completeLines (mem_of_getElem? h)
  simp

variable {content view : List β} {j : ℕ}

theorem upTo_drop_offset (hview : view <+: content) (h : nl ∈ view.drop (offset nl content j)) :
    (completeLines nl content)[j]? = some (upTo nl (view.drop (offset nl content j))) := by
  have hbegin := hview.drop (offset nl content j)
  rw [drop_offset] at hbegin
  obtain ⟨_, _, hdrop, hbody⟩ := eq_append_cons_of_mem h
  rw [hdrop, upTo_append_cons hbody]
  rw [hdrop] at hbegin
  cases hlines : (completeLines nl content).drop j with
  | nil =>
    rw [hlines] at hbegin
    exact absurd (hbegin.subset (mem_append_right _ mem_cons_self))
      (not_mem_unfinished content)
  | cons line =>
    have hline : (completeLines nl content)[j]? = some line := by
      rw [← head?_drop, hlines]
      rfl
    obtain ⟨_, rfl, hbody'⟩ := exists_of_mem_completeLines (mem_of_getElem? hline)
    obtain ⟨rest, hrest⟩ := hbegin
    rw [hlines, flatten_cons, append_assoc, append_assoc, append_assoc,
      singleton_append, cons_append] at hrest
    have heq := congrArg (upTo nl) hrest
    rw [upTo_append_cons hbody, upTo_append_cons hbody'] at heq
    rw [hline, heq]

theorem upTo_drop_of_not_mem (hview : view <+: content) (h : nl ∉ view.drop (offset nl content j)) :
    ∃ line, (line ∈ completeLines nl content ∨ line = unfinished nl content) ∧
      upTo nl (view.drop (offset nl content j)) <+: line := by
  have hbegin := hview.drop (offset nl content j)
  rw [drop_offset] at hbegin
  rw [upTo_of_not_mem h]
  cases hlines : (completeLines nl content).drop j with
  | nil =>
    rw [hlines] at hbegin
    exact ⟨_, .inr rfl, hbegin⟩
  | cons line =>
    have hmem : line ∈ completeLines nl content := mem_of_mem_drop (hlines ▸ mem_cons_self)
    refine ⟨line, .inl hmem, ?_⟩
    rw [hlines, flatten_cons, append_assoc] at hbegin
    rcases prefix_or_prefix_of_prefix hbegin (prefix_append line _) with hle | hle
    · exact hle
    · obtain ⟨_, rfl, -⟩ := exists_of_mem_completeLines hmem
      exact absurd (hle.subset (mem_append_right _ mem_cons_self)) h

end Abyssal.Reading
