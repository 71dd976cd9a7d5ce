import Abyssal.Rbac.Roles
import Abyssal.Text.Basic

/-!
# Accounts and what their roles let them do

An account's effective permissions are the union of those of its roles, read afresh for every
request. There are two notions of scope: the roles that an administrator may assign, and the subtree
of their own role.
-/

namespace Abyssal.Rbac

open List Option Table

structure User where
  id : ℕ
  username : Text
  email : Text
  password : Option Text
  mustChangePassword : Bool
  roleIds : List ℕ

structure Accounts where
  users : List User
  nodup_id : (users.map User.id).Nodup

inductive Write where
  | create (user : User)
  | setUserRole (id roleId : ℕ)
  | updateProfile (id : ℕ) (username email : Text)
  | updatePassword (id : ℕ) (password : Text) (mustChangePassword : Bool)

namespace Accounts

variable (a : Accounts)

def findById (id : ℕ) : Option User := a.users.find? (·.id = id)

variable (f : User → User)

def modify (hf : ∀ u, (f u).id = u.id) (id : ℕ) : Accounts where
  users := Table.modify User.id f id a.users
  nodup_id := by
    rw [map_key_modify hf]
    exact a.nodup_id

def insert (user : User) (h : a.findById user.id = none) : Accounts where
  users := user :: a.users
  nodup_id := by
    rw [map_cons, nodup_cons]
    refine ⟨fun hmem => ?_, a.nodup_id⟩
    obtain ⟨other, hother, hid⟩ := mem_map.1 hmem
    have hnot := find?_eq_none.1 h other hother
    exact hnot (by simpa using hid)

/-- The accounts after a statement, unless it fails on a duplicate id. -/
def write : Write → Option Accounts
  | .create user => if h : a.findById user.id = none then some (a.insert user h) else none
  | .setUserRole id roleId => some (a.modify (fun u => { u with roleIds := [roleId] })
      (fun _ => rfl) id)
  | .updateProfile id username email =>
    some (a.modify (fun u => { u with username := username, email := email }) (fun _ => rfl) id)
  | .updatePassword id password mustChange =>
    some (a.modify
      (fun u => { u with password := some password, mustChangePassword := mustChange })
      (fun _ => rfl) id)

variable {a}

theorem findById_insert {user : User} (h : a.findById user.id = none) (id : ℕ) :
    (a.insert user h).findById id = if user.id = id then some user else a.findById id := by
  rw [findById, insert]
  by_cases hid : user.id = id
  · rw [if_pos hid]
    simp [hid]
  · rw [if_neg hid]
    simp [hid, findById]

theorem findById_modify_self (hf : ∀ u, (f u).id = u.id) (id : ℕ) :
    (a.modify f hf id).findById id = (a.findById id).map f :=
  Table.find?_modify_self hf id

theorem findById_modify_of_ne (hf : ∀ u, (f u).id = u.id) {id id' : ℕ}
    (hne : id ≠ id') : (a.modify f hf id').findById id = a.findById id :=
  Table.find?_modify_of_ne hf hne

theorem roleIds_modify (hf : ∀ u, (f u).id = u.id)
    (hroles : ∀ u, (f u).roleIds = u.roleIds) (id id' : ℕ) :
    ((a.modify f hf id').findById id).map User.roleIds = (a.findById id).map User.roleIds := by
  by_cases hid : id = id'
  · subst hid
    rw [findById_modify_self, Option.map_map]
    exact map_congr fun u _ => hroles u
  · rw [findById_modify_of_ne f hf hid]

end Accounts

variable (t : RoleTable) (a : Accounts)

def rolesForUser (id : ℕ) : List Role :=
  match a.findById id with
  | some user => t.roles.filter (·.id ∈ user.roleIds)
  | none => []

def effectivePermissions (id : ℕ) : Finset Permission :=
  (rolesForUser t a id).foldr (fun role acc => t.effectivePermissionsForRole role.id ∪ acc) ∅

def hasNoCeiling (id : ℕ) : Prop := ∀ p ∈ Permission.all, p ∈ effectivePermissions t a id

instance (id : ℕ) : Decidable (hasNoCeiling t a id) :=
  inferInstanceAs (Decidable (∀ p ∈ Permission.all, _))

def unseen : List ℕ → List Role → List Role
  | _, [] => []
  | seen, role :: roles =>
    if role.id ∈ seen then unseen seen roles else role :: unseen (role.id :: seen) roles

/-- All of them, for one that holds every permission, and otherwise the administrator's own and
those below. -/
def assignableRoles (admin : ℕ) : List Role :=
  if hasNoCeiling t a admin then t.roles
  else unseen [] ((rolesForUser t a admin).flatMap fun own => t.descendantsOf own.id ++ [own])

/-- The account has a role, and its roles are the administrator's own or below it. -/
def InScope (admin id : ℕ) : Prop :=
  rolesForUser t a id ≠ [] ∧ ∀ role ∈ rolesForUser t a id, ∃ own ∈ rolesForUser t a admin,
    t.isWithinSubtree role.id own.id = true

instance (admin id : ℕ) : Decidable (InScope t a admin id) :=
  inferInstanceAs (Decidable (_ ∧ ∀ role ∈ rolesForUser t a id, ∃ own ∈ rolesForUser t a admin, _))

variable {t a} {role : Role} {id : ℕ}

theorem mem_roles_of_rolesForUser (h : role ∈ rolesForUser t a id) : role ∈ t.roles := by
  rw [rolesForUser] at h
  split at h
  · exact (mem_filter.1 h).1
  · cases h

theorem mem_effectivePermissions {p : Permission} :
    p ∈ effectivePermissions t a id ↔
      ∃ role ∈ rolesForUser t a id, p ∈ t.effectivePermissionsForRole role.id := by
  rw [effectivePermissions]
  induction rolesForUser t a id with
  | nil => simp
  | cons _ _ ih =>
    rw [foldr_cons, Finset.mem_union, ih, exists_mem_cons_iff]

theorem findById_ne_none_of_mem {p : Permission}
    (h : p ∈ effectivePermissions t a id) : a.findById id ≠ none := by
  intro hnone
  obtain ⟨_, hrole, -⟩ := mem_effectivePermissions.1 h
  rw [rolesForUser, hnone] at hrole
  cases hrole

theorem mem_of_mem_unseen {seen : List ℕ} {roles : List Role}
    (h : role ∈ unseen seen roles) : role ∈ roles := by
  induction roles generalizing seen with
  | nil => exact h
  | cons _ _ ih =>
    rw [unseen] at h
    split_ifs at h
    · exact mem_cons_of_mem _ (ih h)
    · rcases mem_cons.1 h with rfl | h
      · exact mem_cons_self
      · exact mem_cons_of_mem _ (ih h)

theorem effective_subset_of_assignable (ht : t.Shallow) {admin : ℕ}
    (h : role ∈ assignableRoles t a admin) :
    t.effectivePermissionsForRole role.id ⊆ effectivePermissions t a admin := by
  rw [assignableRoles] at h
  split_ifs at h with hceil
  · exact fun p _ => hceil p p.mem_all
  · obtain ⟨own, hown, hrole⟩ := mem_flatMap.1 (mem_of_mem_unseen h)
    intro p hp
    refine mem_effectivePermissions.2 ⟨own, hown, ?_⟩
    rcases mem_append.1 hrole with hdesc | hself
    · obtain ⟨hmem, habove⟩ := RoleTable.mem_descendantsOf hdesc
      exact ht.effective_subset hmem habove hp
    · rw [mem_singleton] at hself
      exact hself ▸ hp

theorem InScope.effective_subset (ht : t.Shallow) {admin : ℕ} (h : InScope t a admin id) :
    effectivePermissions t a id ⊆ effectivePermissions t a admin := by
  intro p hp
  obtain ⟨role, hrole, hp⟩ := mem_effectivePermissions.1 hp
  obtain ⟨own, hown, hsub⟩ := h.2 role hrole
  have hmem := mem_roles_of_rolesForUser hrole
  have habove := RoleTable.above_of_isWithinSubtree hsub
  exact mem_effectivePermissions.2 ⟨own, hown, ht.effective_subset hmem habove hp⟩

/-! ## What a statement changes -/

variable {a' : Accounts}

theorem rolesForUser_congr
    (h : ((a'.findById id).map User.roleIds).getD [] = ((a.findById id).map User.roleIds).getD []) :
    rolesForUser t a' id = rolesForUser t a id := by
  have key : ∀ b : Accounts, rolesForUser t b id =
      t.roles.filter (·.id ∈ ((b.findById id).map User.roleIds).getD []) := by
    intro b
    rw [rolesForUser]
    cases b.findById id with
    | none => simp
    | some => rfl
  rw [key, key, h]

private theorem effectivePermissions_congr (h : rolesForUser t a' id = rolesForUser t a id) :
    effectivePermissions t a' id = effectivePermissions t a id := by
  rw [effectivePermissions, h, effectivePermissions]

def Write.assigns (id : ℕ) : Write → Prop
  | .create user => user.roleIds ≠ []
  | .setUserRole id' _ => id' = id
  | .updateProfile .. => False
  | .updatePassword .. => False

theorem effectivePermissions_write {w : Write} (h : a.write w = some a')
    (hw : ¬ w.assigns id) : effectivePermissions t a' id = effectivePermissions t a id := by
  refine effectivePermissions_congr (rolesForUser_congr ?_)
  cases w with
  | create user =>
    rw [Accounts.write] at h
    split_ifs at h with hnone
    cases h
    have hroles : user.roleIds = [] := not_not.1 hw
    rw [Accounts.findById_insert hnone]
    split_ifs with hid
    · subst hid
      rw [hnone, map_some, hroles]
      rfl
    · rfl
  | setUserRole id' =>
    cases h
    have hne : id ≠ id' := fun heq => hw heq.symm
    rw [Accounts.findById_modify_of_ne _ _ hne]
  | updateProfile | updatePassword =>
    cases h
    rw [Accounts.roleIds_modify]
    exact fun _ => rfl

theorem effectivePermissions_setUserRole {roleId : ℕ}
    (h : a.write (.setUserRole id roleId) = some a') :
    effectivePermissions t a' id ⊆ t.effectivePermissionsForRole roleId := by
  cases h
  intro p hp
  obtain ⟨role, hrole, hp⟩ := mem_effectivePermissions.1 hp
  rw [rolesForUser, Accounts.findById_modify_self] at hrole
  split at hrole
  · next user huser =>
    obtain ⟨_, -, rfl⟩ := map_eq_some_iff.1 huser
    have hid : role.id = roleId := by simpa using (mem_filter.1 hrole).2
    exact hid ▸ hp
  · cases hrole

end Abyssal.Rbac
