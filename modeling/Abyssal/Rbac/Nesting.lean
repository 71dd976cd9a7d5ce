import Mathlib.Data.List.Sort
import Abyssal.Rbac.Roles

/-!
# How deep roles are nested

The pages that create and move roles ask for the depth of the new parent. A role that is moved takes
the roles below it along, so whether the forest is still no deeper than a bound depends on them too:
`Room` is the exact condition.
-/

namespace Abyssal.Rbac

open Option Function List Table

/-- How deep the pages let roles be nested; a root has depth one. -/
def maxRoleDepth : ℕ := 3

namespace RoleTable

variable (t : RoleTable)

def depthOf (id : ℕ) : ℕ := (t.ancestorChain id).length

def wouldCreateCycle (id proposed : ℕ) : Bool := t.isWithinSubtree proposed id

/-! ## Rows -/

section Rows

variable (collate : String → String → Bool)

def place (role : Role) (rows : List Role) : List Role :=
  rows.orderedInsert (fun a b => collate a.name b.name = true) role

variable {collate} in
theorem perm_place (role : Role) (rows : List Role) :
    (place collate role rows).Perm (role :: rows) :=
  perm_orderedInsert _ role rows

def insert (role : Role) (h : t.findById role.id = none) : RoleTable where
  roles := place collate role t.roles
  grants := update t.grants role.id ∅
  nodup_id := by
    rw [((perm_place role t.roles).map Role.id).nodup_iff, map_cons, nodup_cons]
    refine ⟨fun hmem => ?_, t.nodup_id⟩
    obtain ⟨other, hother, hid⟩ := mem_map.1 hmem
    exact absurd (hid ▸ findById_of_mem hother) (h ▸ (some_ne_none other).symm)

def replace (role : Role) : RoleTable where
  roles := place collate role (t.roles.filter (·.id ≠ role.id))
  grants := t.grants
  nodup_id := by
    rw [((perm_place role _).map Role.id).nodup_iff, map_cons, nodup_cons]
    refine ⟨fun hmem => ?_, t.nodup_id.sublist (filter_sublist.map _)⟩
    obtain ⟨other, hother, hid⟩ := mem_map.1 hmem
    exact absurd hid (by simpa using (mem_filter.1 hother).2)

def remove (id : ℕ) : RoleTable where
  roles := t.roles.filter (·.id ≠ id)
  grants := update t.grants id ∅
  nodup_id := t.nodup_id.sublist (filter_sublist.map _)

def setGrants (id : ℕ) (permissions : Finset Permission) : RoleTable :=
  { t with grants := update t.grants id permissions }

variable {t collate} {role : Role}

theorem findById_insert (h : t.findById role.id = none) (id : ℕ) :
    (t.insert collate role h).findById id = if role.id = id then some role else t.findById id :=
  find?_of_perm_cons (t.insert collate role h).nodup_id (perm_place role t.roles) id

theorem findById_replace (role : Role) (id : ℕ) : (t.replace collate role).findById id =
    if role.id = id then some role else t.findById id := by
  rw [findById, find?_of_perm_cons (t.replace collate role).nodup_id (perm_place role _) id]
  by_cases hid : role.id = id
  · rw [if_pos hid, if_pos hid]
  · rw [if_neg hid, if_neg hid, find?_filter_ne, if_neg (Ne.symm hid)]
    rfl

theorem findById_remove (id id' : ℕ) :
    (t.remove id).findById id' = if id' = id then none else t.findById id' :=
  find?_filter_ne id id'

theorem mem_roles_iff : role ∈ t.roles ↔ t.findById role.id = some role :=
  ⟨findById_of_mem, mem_of_find?_eq_some⟩

theorem parentOf_eq_update {t' : RoleTable} {id : ℕ}
    (hrow : ∀ i, i ≠ id → t'.findById i = t.findById i) :
    t'.parentOf = update t.parentOf id (t'.parentOf id) := by
  ext1 i
  by_cases hi : i = id
  · rw [hi, update_self]
  · rw [update_of_ne hi, parentOf, hrow i hi]
    rfl

theorem parentOf_of_findById {id : ℕ} (h : t.findById id = some role) :
    t.parentOf id = role.parentRoleId := by
  rw [parentOf, h]
  rfl

theorem parentOf_insert (h : t.findById role.id = none) :
    (t.insert collate role h).parentOf = update t.parentOf role.id role.parentRoleId := by
  have hfind := @findById_insert t collate role h
  rw [parentOf_eq_update fun i hi => (hfind i).trans (if_neg hi.symm),
    parentOf_of_findById ((hfind _).trans (if_pos rfl))]

theorem parentOf_replace (role : Role) : (t.replace collate role).parentOf =
    update t.parentOf role.id role.parentRoleId := by
  have hfind := @findById_replace t collate role
  rw [parentOf_eq_update fun i hi => (hfind i).trans (if_neg hi.symm),
    parentOf_of_findById ((hfind _).trans (if_pos rfl))]

theorem parentOf_remove (id : ℕ) : (t.remove id).parentOf = update t.parentOf id none := by
  have hfind := findById_remove (t := t) id
  rw [parentOf_eq_update fun i hi => (hfind i).trans (if_neg hi), parentOf, hfind, if_pos rfl]
  rfl

@[simp] theorem grants_setGrants_self (id : ℕ) (permissions : Finset Permission) :
    (t.setGrants id permissions).grants id = permissions :=
  update_self ..

end Rows

/-! ## Depth -/

section Depth

/-- Every role's way to its root has at most `n` roles. -/
def Within (n : ℕ) : Prop := ∀ role ∈ t.roles, Forest.Rooted t.parentOf n role.id

instance (n : ℕ) : Decidable (t.Within n) :=
  inferInstanceAs (Decidable (∀ role ∈ t.roles, _))

def Ends : Prop := ∀ role ∈ t.roles, ∃ n, Forest.Rooted t.parentOf n role.id

def Acyclic : Prop :=
  ∀ id, ¬ Relation.TransGen (fun child parent => t.parentOf child = some parent) id id

def Closed : Prop := ∀ role ∈ t.roles, ∀ p ∈ role.parentRoleId, t.findById p ≠ none

instance : Decidable t.Closed :=
  inferInstanceAs (Decidable (∀ role ∈ t.roles, ∀ p ∈ role.parentRoleId, _))

/-- The roles from one below up to the role, and the parent's own depth, make at most `n`. -/
def Fits (n id : ℕ) : Option ℕ → Prop
  | none => True
  | some p => ∀ role ∈ t.roles, id ∈ t.ancestorChain role.id →
      (t.ancestorChain role.id).idxOf id + 1 + t.depthOf p ≤ n

instance (n id : ℕ) (parent : Option ℕ) : Decidable (t.Fits n id parent) :=
  match parent with
  | none => inferInstanceAs (Decidable True)
  | some _ => inferInstanceAs (Decidable (∀ role ∈ t.roles, _))

/-- The role is not above the given parent, and fits under it. -/
def Room (n id : ℕ) (parent : Option ℕ) : Prop :=
  (∀ p ∈ parent, id ∉ t.ancestorChain p) ∧ t.Fits n id parent

variable {t} {collate : String → String → Bool} {n : ℕ} {id : ℕ}

theorem forall_mem_roles {P : ℕ → Prop} :
    (∀ role ∈ t.roles, P role.id) ↔ ∀ i, t.findById i ≠ none → P i := by
  constructor
  · intro h i hi
    obtain ⟨role, hrole⟩ := ne_none_iff_exists'.1 hi
    obtain ⟨hmem, rfl⟩ := (find?_eq_some_iff t.nodup_id).1 hrole
    exact h role hmem
  · exact fun h role hrole => h role.id (findById_of_mem hrole ▸ some_ne_none role)

open Forest

theorem ends_iff_findById : t.Ends ↔ ∀ i, t.findById i ≠ none → ∃ m, Rooted t.parentOf m i :=
  forall_mem_roles (P := fun i => ∃ m, Rooted t.parentOf m i)

open Nat

theorem depthOf_le_iff (hn : n ≤ maxAncestorWalk) : t.depthOf id ≤ n ↔ Rooted t.parentOf n id :=
  length_walk_le_iff (lt_succ_of_le hn)

theorem ancestorChain_eq (h : Rooted t.parentOf n id)
    (hn : n ≤ maxAncestorWalk) : t.ancestorChain id = walk t.parentOf n id :=
  h.walk_eq (le_succ_of_le hn)

theorem Within.ends (h : t.Within n) : t.Ends := fun role hrole => ⟨n, h role hrole⟩

theorem Ends.acyclic (h : t.Ends) : t.Acyclic := by
  intro id hcycle
  obtain ⟨p, hp, -⟩ := Relation.TransGen.head'_iff.1 hcycle
  have hid : t.findById id ≠ none := by
    intro hnone
    rw [parentOf, hnone] at hp
    cases hp.symm
  obtain ⟨m, hm⟩ := ends_iff_findById.1 h id hid
  exact hm.not_transGen hcycle

theorem within_iff (hn : n ≤ maxAncestorWalk) :
    t.Within n ↔ t.Acyclic ∧ ∀ role ∈ t.roles, t.depthOf role.id ≤ n := by
  constructor
  · intro h
    exact ⟨h.ends.acyclic, fun role hrole => (depthOf_le_iff hn).2 (h role hrole)⟩
  · rintro ⟨-, h⟩ role hrole
    exact (depthOf_le_iff hn).1 (h role hrole)

theorem rooted_moved_iff (h : t.Within n) (hn : n ≤ maxAncestorWalk) {p i : ℕ}
    (hi : t.findById i ≠ none) (hcycle : id ∉ t.ancestorChain p) (hmem : id ∈ t.ancestorChain i) :
    Rooted (update t.parentOf id (some p)) n i ↔
      (t.ancestorChain i).idxOf id + 1 + t.depthOf p ≤ n := by
  have hrooted := forall_mem_roles.1 h i hi
  rw [ancestorChain_eq hrooted hn] at hmem ⊢
  -- The moved role stands among the first `n` on the way, so the rest of the bound is
  -- what is left for the new parent.
  have hidx := idxOf_lt_length_of_mem hmem
  have hlength := (length_walk_le_iff (lt_succ_self n)).2 hrooted
  rw [hrooted.walk_succ] at hlength
  obtain ⟨m, hm⟩ := Nat.exists_eq_add_of_le (lt_of_lt_of_le hidx hlength)
  have hmoved := rooted_update_iff (m := m) (q := some p) hmem
  rw [succ_eq_add_one] at hm
  rw [← hm] at hmoved
  simp only [mem_some_iff, forall_eq'] at hmoved
  have hmn : m ≤ n := by omega
  have hrest : id ∉ walk t.parentOf m p := fun hw =>
    hcycle (walk_subset_of_le (le_succ_of_le (hmn.trans hn)) p hw)
  have hdepth : t.depthOf p ≤ m ↔ Rooted t.parentOf m p := depthOf_le_iff (hmn.trans hn)
  rw [hmoved, rooted_update_of_not_mem hrest, ← hdepth]
  omega

variable {role : Role}

theorem findById_replace_ne_none (hid : t.findById role.id ≠ none) (i : ℕ) :
    (t.replace collate role).findById i ≠ none ↔ t.findById i ≠ none := by
  rw [findById_replace]
  split_ifs with heq
  · subst heq
    exact iff_of_true (some_ne_none _) hid
  · exact Iff.rfl

/-- The table stays within a depth exactly if the role and all below it have room under the new
parent. -/
theorem within_replace_iff (h : t.Within n) (hn : n ≤ maxAncestorWalk)
    (hid : t.findById role.id ≠ none) (hp : ∀ p ∈ role.parentRoleId, t.findById p ≠ none) :
    (t.replace collate role).Within n ↔ t.Room n role.id role.parentRoleId := by
  rw [Within, forall_mem_roles, parentOf_replace]
  simp only [findById_replace_ne_none hid]
  cases hparent : role.parentRoleId with
  | none =>
    refine iff_of_true (fun i hi => (forall_mem_roles.1 h i hi).update_none)
      ⟨fun p hp' => ?_, trivial⟩
    exact absurd hp' (some_ne_none p).symm
  | some p =>
    have hp' := hp p hparent
    constructor
    · intro h'
      have hcycle : role.id ∉ t.ancestorChain p := fun hmem =>
        not_rooted_update hmem (h' p hp')
      refine ⟨fun p' hp' => some.inj hp' ▸ hcycle, fun other hother hmem => ?_⟩
      have hi : t.findById other.id ≠ none := findById_of_mem hother ▸ some_ne_none other
      exact (rooted_moved_iff h hn hi hcycle hmem).1 (h' other.id hi)
    · rintro ⟨hcycle, hroom⟩
      have hcycle := hcycle p rfl
      refine forall_mem_roles.1 fun other hother => ?_
      by_cases hmem : role.id ∈ t.ancestorChain other.id
      · have hi : t.findById other.id ≠ none := findById_of_mem hother ▸ some_ne_none other
        exact (rooted_moved_iff h hn hi hcycle hmem).2 (hroom other hother hmem)
      · rw [ancestorChain_eq (h other hother) hn] at hmem
        exact (rooted_update_of_not_mem hmem).2 (h other hother)

theorem Closed.findById_of_above (h : t.Closed) {i j : ℕ} (hi : t.findById i ≠ none)
    (hj : t.Above j i) : t.findById j ≠ none := by
  induction hj with
  | refl => exact hi
  | @tail k j _ hstep ih =>
    obtain ⟨role, hrole⟩ := ne_none_iff_exists'.1 ih
    refine h role (mem_of_find?_eq_some hrole) j ?_
    rwa [parentOf, hrole] at hstep

section Insert

variable (hclosed : t.Closed) (hid : t.findById role.id = none)
  (hp : ∀ p ∈ role.parentRoleId, t.findById p ≠ none)
include hclosed hid

theorem rooted_insert_iff {i : ℕ} (hi : t.findById i ≠ none) (m : ℕ) :
    Rooted (t.insert collate role hid).parentOf m i ↔ Rooted t.parentOf m i := by
  rw [parentOf_insert]
  refine rooted_update_of_not_mem fun hmem => ?_
  exact hclosed.findById_of_above hi (above_of_mem_walk hmem) hid

include hp

theorem rooted_insert_self_iff (m : ℕ) :
    Rooted (t.insert collate role hid).parentOf (m + 1) role.id ↔
      ∀ p ∈ role.parentRoleId, Rooted t.parentOf m p := by
  rw [Rooted, parentOf_of_findById ((findById_insert hid _).trans (if_pos rfl))]
  exact forall₂_congr fun p hparent => rooted_insert_iff hclosed hid (hp p hparent) m

/-- **Adding a role.** The table stays within a depth exactly if the parent is not as deep
already. -/
theorem within_insert_iff (h : t.Within n) (hn : n ≤ maxAncestorWalk) :
    (t.insert collate role hid).Within n ↔
      1 ≤ n ∧ ∀ p ∈ role.parentRoleId, t.depthOf p + 1 ≤ n := by
  rw [Within, forall_mem_roles]
  constructor
  · intro h'
    have hnew := h' role.id (by rw [findById_insert, if_pos rfl]; exact some_ne_none _)
    obtain ⟨m, rfl⟩ := hnew.exists_succ
    refine ⟨succ_le_succ (zero_le m), fun p hparent => ?_⟩
    rw [Nat.add_le_add_iff_right, depthOf_le_iff (le_of_succ_le hn)]
    exact (rooted_insert_self_iff hclosed hid hp m).1 hnew p hparent
  · rintro ⟨hpos, hdepth⟩ i hi
    obtain ⟨m, rfl⟩ := Nat.exists_eq_add_of_le' hpos
    rw [findById_insert] at hi
    split_ifs at hi with heq
    · subst heq
      refine (rooted_insert_self_iff hclosed hid hp m).2 fun p hparent => ?_
      rw [← depthOf_le_iff (le_of_succ_le hn)]
      exact le_of_succ_le_succ (hdepth p hparent)
    · exact (rooted_insert_iff hclosed hid hi _).2 (forall_mem_roles.1 h i hi)

theorem Ends.insert (h : t.Ends) : (t.insert collate role hid).Ends := by
  rw [ends_iff_findById]
  intro i hi
  rw [findById_insert] at hi
  split_ifs at hi with heq
  · subst heq
    cases hparent : role.parentRoleId with
    | none =>
      refine ⟨1, (rooted_insert_self_iff hclosed hid hp 0).2 fun p hp' => ?_⟩
      exact absurd (hparent.symm.trans hp') (some_ne_none p).symm
    | some p =>
      obtain ⟨m, hm⟩ := ends_iff_findById.1 h p (hp p hparent)
      refine ⟨m + 1, (rooted_insert_self_iff hclosed hid hp m).2 fun p' hp' => ?_⟩
      cases hparent.symm.trans hp'
      exact hm
  · obtain ⟨m, hm⟩ := ends_iff_findById.1 h i hi
    exact ⟨m, (rooted_insert_iff hclosed hid hi m).2 hm⟩

end Insert

theorem Within.remove (h : t.Within n) (id : ℕ) : (t.remove id).Within n := fun role hrole => by
  rw [parentOf_remove]
  exact (h role (mem_filter.1 hrole).1).update_none

theorem Ends.remove (h : t.Ends) (id : ℕ) : (t.remove id).Ends := fun role hrole => by
  obtain ⟨m, hm⟩ := h role (mem_filter.1 hrole).1
  rw [parentOf_remove]
  exact ⟨m, hm.update_none⟩

theorem Ends.replace (h : t.Ends) (hid : t.findById role.id ≠ none)
    (hp : ∀ p ∈ role.parentRoleId, role.id ∉ t.ancestorChain p ∧ t.depthOf p ≤ maxAncestorWalk) :
    (t.replace collate role).Ends := by
  rw [ends_iff_findById, parentOf_replace]
  simp only [findById_replace_ne_none hid]
  intro i hi
  obtain ⟨m, hm⟩ := ends_iff_findById.1 h i hi
  cases hparent : role.parentRoleId with
  | none => exact ⟨m, hm.update_none⟩
  | some p =>
    obtain ⟨hcycle, hdepth⟩ := hp p hparent
    have hroot := (depthOf_le_iff le_rfl).1 hdepth
    rw [ancestorChain_eq hroot le_rfl] at hcycle
    by_cases hmem : role.id ∈ walk t.parentOf m i
    · refine ⟨_, (rooted_update_iff (m := maxAncestorWalk) hmem).2 fun p' hp' => ?_⟩
      cases hp'
      exact (rooted_update_of_not_mem hcycle).2 hroot
    · exact ⟨m, (rooted_update_of_not_mem hmem).2 hm⟩

theorem Ends.replace_of_eq (h : t.Ends) (hid : t.findById role.id ≠ none)
    (hparent : role.parentRoleId = t.parentOf role.id) : (t.replace collate role).Ends := by
  rw [ends_iff_findById, parentOf_replace, hparent, update_eq_self]
  simp only [findById_replace_ne_none hid]
  exact ends_iff_findById.1 h

end Depth

end RoleTable

end Abyssal.Rbac
