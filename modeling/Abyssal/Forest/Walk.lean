import Mathlib.Data.List.Basic
import Mathlib.Logic.Relation

/-!
# Bounded walks up a forest

A forest is given by the parent of each node, which may have cycles, so programs walk it with a
bound on the number of nodes they visit. `Forest.Above parent j i` says that `j` is `i` or one of
its ancestors. A walk from `i` visits only such nodes, and one that stops at a root within the bound
visits all of them.

A node `r` is moved by giving it another parent, or none. Ways to the root that do not pass `r` stay
as they are. The others are as before up to `r` and go on from the new parent.
-/

namespace Abyssal.Forest

open List Function

variable {ι : Type*} (parent : ι → Option ι)

def walk : ℕ → ι → List ι
  | 0, _ => []
  | n + 1, i =>
    i :: match parent i with
      | some p => walk n p
      | none => []

def Rooted : ℕ → ι → Prop
  | 0, _ => False
  | n + 1, i => ∀ p ∈ parent i, Rooted n p

/-- Whether a node is rooted is decided by walking. -/
def decideRooted : (n : ℕ) → (i : ι) → Decidable (Rooted parent n i)
  | 0, _ => inferInstanceAs (Decidable False)
  | n + 1, i =>
    haveI := decideRooted n
    inferInstanceAs (Decidable (∀ p ∈ parent i, Rooted parent n p))

instance (n : ℕ) (i : ι) : Decidable (Rooted parent n i) := decideRooted parent n i

def Above (j i : ι) : Prop := Relation.ReflTransGen (fun a b => parent a = some b) i j

variable {parent} {parent' : ι → Option ι} {i j p : ι} {m n : ℕ}

theorem walk_succ_some (h : parent i = some p) : walk parent (n + 1) i = i :: walk parent n p := by
  rw [walk, h]

theorem walk_succ_none (h : parent i = none) : walk parent (n + 1) i = [i] := by
  rw [walk, h]

theorem rooted_succ_some (h : parent i = some p) : Rooted parent (n + 1) i ↔ Rooted parent n p := by
  rw [Rooted, h]
  simp

theorem rooted_succ_none (h : parent i = none) : Rooted parent (n + 1) i := by
  rw [Rooted, h]
  exact fun p hp => absurd hp (Option.some_ne_none p).symm

open Relation.ReflTransGen

theorem Above.refl (i : ι) : Above parent i i := Relation.ReflTransGen.refl

theorem Above.trans {k : ι} (hkj : Above parent k j) (hji : Above parent j i) :
    Above parent k i := Relation.ReflTransGen.trans hji hkj

theorem Above.of_parent (h : parent i = some p) : Above parent p i := single h

theorem above_of_mem_walk (h : j ∈ walk parent n i) : Above parent j i := by
  induction n generalizing i with
  | zero => cases h
  | succ n ih =>
    cases hp : parent i with
    | none =>
      rw [walk_succ_none hp, mem_singleton] at h
      exact h ▸ Above.refl j
    | some =>
      rw [walk_succ_some hp, mem_cons] at h
      rcases h with rfl | h
      · exact .refl j
      · exact (ih h).trans (.of_parent hp)

namespace Rooted

theorem exists_succ (h : Rooted parent n i) : ∃ m, n = m + 1 := by
  cases n with
  | zero => exact absurd h id
  | succ m => exact ⟨m, rfl⟩

theorem succ (h : Rooted parent n i) : Rooted parent (n + 1) i := by
  induction n generalizing i with
  | zero => exact absurd h id
  | succ n ih => exact fun p hp => ih (h p hp)

theorem walk_succ (h : Rooted parent n i) : walk parent (n + 1) i = walk parent n i := by
  induction n generalizing i with
  | zero => exact absurd h id
  | succ n ih =>
    cases hp : parent i with
    | none => rw [walk_succ_none hp, walk_succ_none hp]
    | some p => rw [walk_succ_some hp, walk_succ_some hp, ih (h p hp)]

theorem mem_self (h : Rooted parent n i) : i ∈ walk parent n i := by
  obtain ⟨_, rfl⟩ := h.exists_succ
  exact mem_cons_self

theorem parent_mem_walk (h : Rooted parent n i)
    (hj : j ∈ walk parent n i) (hp : parent j = some p) : p ∈ walk parent n i := by
  induction n generalizing i with
  | zero => exact absurd h id
  | succ n ih =>
    cases hi : parent i with
    | none =>
      rw [walk_succ_none hi, mem_singleton] at hj
      rw [hj, hi] at hp
      cases hp
    | some =>
      rw [walk_succ_some hi] at hj ⊢
      refine mem_cons_of_mem i ?_
      rcases mem_cons.1 hj with rfl | hj
      · cases hi.symm.trans hp
        exact (h _ hi).mem_self
      · exact ih (h _ hi) hj

theorem mem_walk_of_above (h : Rooted parent n i)
    (hij : Above parent j i) : j ∈ walk parent n i := by
  induction hij with
  | refl => exact h.mem_self
  | tail _ hstep ih => exact h.parent_mem_walk ih hstep

theorem mono (h : Rooted parent m i) (hmn : m ≤ n) : Rooted parent n i := by
  induction hmn with
  | refl => exact h
  | step _ ih => exact ih.succ

theorem walk_eq (h : Rooted parent m i) (hmn : m ≤ n) : walk parent n i = walk parent m i := by
  induction hmn with
  | refl => rfl
  | step hle ih => rw [(h.mono hle).walk_succ, ih]

theorem not_transGen (h : Rooted parent n i) :
    ¬ Relation.TransGen (fun a b => parent a = some b) i i := by
  intro hcycle
  -- The walk from `i` would go round for ever: each node of the cycle is rooted one
  -- node sooner than the one before it.
  induction n generalizing i with
  | zero => exact h
  | succ n ih =>
    obtain ⟨p, hp, hrest⟩ := Relation.TransGen.head'_iff.1 hcycle
    refine ih (h p hp) ?_
    exact Relation.TransGen.tail' hrest hp

theorem not_mem_walk_parent (h : Rooted parent n i) (hp : parent i = some p) :
    i ∉ walk parent m p := fun hmem =>
  h.not_transGen (.head' hp (above_of_mem_walk hmem))

theorem exists_last {S : ι → Prop} (h : Rooted parent n i) (hS : ∃ j ∈ walk parent n i, S j) :
    ∃ j ∈ walk parent n i, S j ∧ ∀ p ∈ parent j, ∀ k, Above parent k p → ¬ S k := by
  induction n generalizing i with
  | zero => exact absurd h id
  | succ n ih =>
    obtain ⟨j, hj, hSj⟩ := hS
    cases hp : parent i with
    | none =>
      rw [walk_succ_none hp] at hj ⊢
      refine ⟨j, hj, hSj, fun p hp' => ?_⟩
      rw [mem_singleton.1 hj, hp] at hp'
      exact absurd hp' (Option.some_ne_none p).symm
    | some p =>
      have hroot := h p hp
      rw [walk_succ_some hp] at hj ⊢
      by_cases hrest : ∃ k ∈ walk parent n p, S k
      · obtain ⟨k, hk, hlast⟩ := ih hroot hrest
        exact ⟨k, mem_cons_of_mem _ hk, hlast⟩
      · -- Nothing further up has the property, so the node that has it is `i`.
        rcases mem_cons.1 hj with rfl | hj
        · refine ⟨j, mem_cons_self, hSj, fun p' hp' k hk hSk => hrest ?_⟩
          cases hp.symm.trans hp'
          exact ⟨k, hroot.mem_walk_of_above hk, hSk⟩
        · exact absurd ⟨j, hj, hSj⟩ hrest

end Rooted

theorem walk_congr (h : ∀ j ∈ walk parent n i, parent' j = parent j) :
    walk parent' n i = walk parent n i := by
  induction n generalizing i with
  | zero => rfl
  | succ n ih =>
    have hi := h i mem_cons_self
    cases hp : parent i with
    | none => rw [walk_succ_none hp, walk_succ_none (hi.trans hp)]
    | some =>
      rw [walk_succ_some hp] at h ⊢
      rw [walk_succ_some (hi.trans hp), ih fun j hj => h j (mem_cons_of_mem _ hj)]

theorem Above.congr (h : ∀ k, Above parent k i → parent' k = parent k)
    (hj : Above parent j i) : Above parent' j i := by
  induction hj with
  | refl => exact .refl i
  | @tail k j hik hkj ih => exact (Above.of_parent ((h k hik).trans hkj)).trans ih

open Nat

theorem length_walk_le_iff (h : m < n) : (walk parent n i).length ≤ m ↔ Rooted parent m i := by
  induction m generalizing n i with
  | zero =>
    obtain ⟨n, rfl⟩ := exists_eq_succ_of_ne_zero (Nat.ne_zero_of_lt h)
    exact iff_of_false (not_succ_le_zero _) id
  | succ m ih =>
    obtain ⟨_, rfl⟩ := exists_eq_succ_of_ne_zero (Nat.ne_zero_of_lt h)
    cases hp : parent i with
    | none =>
      rw [walk_succ_none hp]
      exact iff_of_true (succ_le_succ (zero_le m)) (rooted_succ_none hp)
    | some =>
      rw [walk_succ_some hp, length_cons, Nat.add_le_add_iff_right,
        ih (lt_of_succ_lt_succ h), rooted_succ_some hp]

theorem walk_subset_of_le (h : m ≤ n) (i : ι) : walk parent m i ⊆ walk parent n i := by
  induction m generalizing n i with
  | zero => exact nil_subset _
  | succ m ih =>
    obtain ⟨_, rfl⟩ := exists_eq_succ_of_ne_zero (Nat.ne_zero_of_lt h)
    cases hp : parent i with
    | none => rw [walk_succ_none hp, walk_succ_none hp]; exact Subset.refl _
    | some p =>
      rw [walk_succ_some hp, walk_succ_some hp]
      exact cons_subset_cons _ (ih (le_of_succ_le_succ h) p)

variable [DecidableEq ι] {r : ι} {q : Option ι}

theorem rooted_update_of_not_mem (h : r ∉ walk parent n i) :
    Rooted (update parent r q) n i ↔ Rooted parent n i := by
  induction n generalizing i with
  | zero => exact Iff.rfl
  | succ n ih =>
    have hne : i ≠ r := fun heq => h (heq ▸ mem_cons_self)
    rw [Rooted, update_of_ne hne]
    refine forall₂_congr fun p hp => ih fun hmem => h ?_
    rw [walk_succ_some hp]
    exact mem_cons_of_mem _ hmem

theorem rooted_update_iff (h : r ∈ walk parent n i) :
    Rooted (update parent r q) ((walk parent n i).idxOf r + 1 + m) i ↔
      ∀ p ∈ q, Rooted (update parent r q) m p := by
  induction n generalizing i with
  | zero => cases h
  | succ n ih =>
    by_cases hi : i = r
    · subst hi
      rw [walk, idxOf_cons_self, Nat.add_comm, Rooted, update_self]
    · cases hp : parent i with
      | none =>
        rw [walk_succ_none hp, mem_singleton] at h
        exact absurd h.symm hi
      | some =>
        rw [walk_succ_some hp, mem_cons] at h
        have hmem := h.resolve_left (Ne.symm hi)
        rw [walk_succ_some hp, idxOf_cons_ne _ hi,
          Nat.add_right_comm _ 1 m, rooted_succ_some ((update_of_ne hi _ _).trans hp),
          ih hmem]

theorem not_rooted_update (h : r ∈ walk parent n p) : ¬ Rooted (update parent r (some p)) m p := by
  induction m using Nat.strongRecOn with
  | _ m ih =>
    intro hm
    by_cases hle : (walk parent n p).idxOf r + 1 ≤ m
    · obtain ⟨k, rfl⟩ := Nat.exists_eq_add_of_le hle
      exact ih k (by omega) ((rooted_update_iff h).1 hm p rfl)
    · have hm' := hm.mono (Nat.le_of_not_le hle)
      exact (rooted_update_iff (m := 0) h).1 hm' p rfl

theorem Rooted.update_none (h : Rooted parent n i) : Rooted (update parent r none) n i := by
  induction n generalizing i with
  | zero => exact h
  | succ n ih =>
    by_cases hi : i = r
    · exact rooted_succ_none (hi ▸ update_self ..)
    · rw [Rooted, update_of_ne hi]
      exact fun p hp => ih (h p hp)

theorem Above.update_self (h : Above parent r i) : Above (update parent r q) r i := by
  refine head_induction_on h (.refl r) fun {a b} hab _ ih => ?_
  by_cases ha : a = r
  · exact ha ▸ .refl a
  · exact ih.trans (.of_parent ((update_of_ne ha _ _).trans hab))

theorem Above.update_of_not (hr : ¬ Above parent r i) (h : Above parent j i) :
    Above (update parent r q) j i := by
  induction h with
  | refl => exact .refl i
  | @tail k j hik hkj ih =>
    have hk : k ≠ r := fun hk => hr (hk ▸ hik)
    exact (Above.of_parent ((update_of_ne hk _ _).trans hkj)).trans ih

end Abyssal.Forest
