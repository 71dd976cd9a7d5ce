import Mathlib.Data.List.Infix
import Mathlib.Data.List.Perm.Subperm

/-!
# The newest entries of a log

A log has its entries in the order of their numbers. A reader that asks for the newest entries of
some kind, but at most so many, gets all that it has not seen exactly if there are no more of them.
-/

namespace Abyssal.Reading

open List

variable {α : Type*} (number : α → ℕ) (kind : α → Bool)

/-- The newest entries of a kind, at most `k`, the last one first. -/
def newest (k : ℕ) (log : List α) : List α := ((log.filter kind).reverse).take k

variable {number kind} {log : List α}

theorem filter_append_filter_of_pairwise (h : log.Pairwise fun a b => number a < number b) (m : ℕ) :
    log.filter (fun a => number a ≤ m) ++ log.filter (fun a => m < number a) = log := by
  induction log with
  | nil => rfl
  | cons a log ih =>
    obtain ⟨ha, hlog⟩ := pairwise_cons.1 h
    by_cases hle : number a ≤ m
    · rw [filter_cons_of_pos (by simpa using hle),
        filter_cons_of_neg (by simpa using hle), cons_append, ih hlog]
    · have hnone : log.filter (fun a => number a ≤ m) = [] := by
        refine filter_eq_nil_iff.2 fun b hb => ?_
        have hab := ha b hb
        rw [decide_eq_true_eq]
        omega
      have hall : log.filter (fun a => m < number a) = log := by
        refine filter_eq_self.2 fun b hb => ?_
        have hab := ha b hb
        rw [decide_eq_true_eq]
        omega
      rw [filter_cons_of_neg (by simpa using hle),
        filter_cons_of_pos (by simpa using hle), hnone, hall, nil_append]

theorem mem_of_mem_newest {k : ℕ} {a : α} (h : a ∈ newest kind k log) : a ∈ log ∧ kind a :=
  mem_filter.1 (mem_reverse.1 (mem_of_mem_take h))

theorem forall_mem_newest_iff (h : log.Pairwise fun a b => number a < number b) (m k : ℕ) :
    (∀ a ∈ log, kind a → m < number a → a ∈ newest kind k log) ↔
      (log.filter fun a => kind a && decide (m < number a)).length ≤ k := by
  have hkind := h.filter kind
  have hsplit : log.filter (fun a => kind a && decide (m < number a)) =
      (log.filter kind).filter fun a => m < number a := by
    rw [filter_filter]
    exact filter_congr fun a _ => Bool.and_comm _ _
  constructor
  · intro hall
    have hnodup : (log.filter fun a => kind a && decide (m < number a)).Nodup := by
      refine (h.filter _).imp fun hlt heq => ?_
      rw [heq] at hlt
      exact Nat.lt_irrefl _ hlt
    have hsub : (log.filter fun a => kind a && decide (m < number a)) ⊆ newest kind k log := by
      intro a ha
      obtain ⟨hmem, hboth⟩ := mem_filter.1 ha
      rw [Bool.and_eq_true, decide_eq_true_eq] at hboth
      exact hall a hmem hboth.1 hboth.2
    exact (hnodup.subperm hsub).length_le.trans (length_take_le _ _)
  · intro hle a hmem hka hlt
    rw [hsplit] at hle
    have ha : a ∈ (log.filter kind).filter fun a => m < number a :=
      mem_filter.2 ⟨mem_filter.2 ⟨hmem, hka⟩, decide_eq_true hlt⟩
    have hbegin : ((log.filter kind).filter fun a => m < number a).reverse <+:
        (log.filter kind).reverse := by
      refine ⟨((log.filter kind).filter fun a => number a ≤ m).reverse, ?_⟩
      rw [← reverse_append, filter_append_filter_of_pairwise hkind m]
    have htake := prefix_take_iff.2 ⟨hbegin, (length_reverse).trans_le hle⟩
    exact htake.subset (mem_reverse.2 ha)

end Abyssal.Reading
