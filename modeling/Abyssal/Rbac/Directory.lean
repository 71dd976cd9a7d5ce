import Abyssal.Rbac.Accounts
import Abyssal.Rbac.Nesting

/-!
# The role tables and the statements on them

The foreign keys see to it that a parent exists and that an assigned role exists; `Directory`
carries both. A statement that would break one of them, or a unique key, changes nothing. Names are
compared in the collation of the database: `collate a b` says that `a` does not come after `b`.
-/

namespace Abyssal.Rbac

open Option List RoleTable

def Accounts.dropRole (a : Accounts) (id : ℕ) : Accounts where
  users := a.users.map fun user => { user with roleIds := user.roleIds.filter (· ≠ id) }
  nodup_id := by
    rw [List.map_map]
    exact a.nodup_id

/-- The tables of roles and accounts. Every parent and every assigned role exists. -/
structure Directory where
  table : RoleTable
  system : ℕ → Bool
  accounts : Accounts
  closed : table.Closed
  assigned : ∀ user ∈ accounts.users, ∀ id ∈ user.roleIds, table.findById id ≠ none

namespace Directory

variable (collate : String → String → Bool) (d : Directory)

def sameName (a b : String) : Bool := collate a b && collate b a

def findByName (name : String) : Option Role :=
  d.table.roles.find? fun role => sameName collate role.name name

def userCount (id : ℕ) : ℕ := d.accounts.users.countP fun user => id ∈ user.roleIds

def insertRole (role : Role) : Option Directory :=
  if h : d.table.findById role.id = none ∧ d.findByName collate role.name = none ∧
      ∀ p ∈ role.parentRoleId, d.table.findById p ≠ none then
    some
      { table := d.table.insert collate role h.1
        system := Function.update d.system role.id false
        accounts := d.accounts
        closed := by
          intro other hother p hp
          rw [findById_insert]
          split_ifs
          · exact some_ne_none role
          · rcases mem_cons.1 ((perm_place role _).mem_iff.1 hother) with rfl | hmem
            · exact h.2.2 p hp
            · exact d.closed other hmem p hp
        assigned := by
          intro user huser id hid
          rw [findById_insert]
          split_ifs
          · exact some_ne_none role
          · exact d.assigned user huser id hid }
  else none

def updateRole (role : Role) : Option Directory :=
  if hid : d.table.findById role.id = none then some d
  else if ∃ other ∈ d.table.roles, sameName collate other.name role.name ∧ other.id ≠ role.id then
    none
  else if hp : ∀ p ∈ role.parentRoleId, d.table.findById p ≠ none then
    some
      { table := d.table.replace collate role
        system := d.system
        accounts := d.accounts
        closed := by
          intro other hother p hp'
          rw [findById_replace_ne_none hid]
          rcases mem_cons.1 ((perm_place role _).mem_iff.1 hother) with rfl | hmem
          · exact hp p hp'
          · exact d.closed other (mem_filter.1 hmem).1 p hp'
        assigned := by
          intro user huser id hid'
          rw [findById_replace_ne_none hid]
          exact d.assigned user huser id hid' }
  else none

def deleteRole (id : ℕ) : Option Directory :=
  if h : d.table.childrenOf id = [] then
    some
      { table := d.table.remove id
        system := d.system
        accounts := d.accounts.dropRole id
        closed := by
          intro other hother p hp
          have hmem := (mem_filter.1 hother).1
          rw [findById_remove]
          split_ifs with heq
          · exact absurd (mem_childrenOf.2 ⟨hmem, hp⟩)
              (heq ▸ h ▸ not_mem_nil)
          · exact d.closed other hmem p hp
        assigned := by
          intro user huser id' hid'
          obtain ⟨old, hold, rfl⟩ := mem_map.1 huser
          obtain ⟨hmem, hne⟩ := mem_filter.1 hid'
          rw [findById_remove, if_neg (by simpa using hne)]
          exact d.assigned old hold id' hmem }
  else none

def setPermissions (id : ℕ) (permissions : Finset Permission) : Option Directory :=
  if d.table.findById id = none then
    if permissions = ∅ then some d else none
  else some { d with table := d.table.setGrants id permissions }

theorem id_setRole (roleId : ℕ) (u : User) : ({ u with roleIds := [roleId] } : User).id = u.id :=
  rfl

def setUserRole (user roleId : ℕ) : Option Directory :=
  if h : d.accounts.findById user ≠ none ∧ d.table.findById roleId ≠ none then
    some
      { d with
        accounts := d.accounts.modify (fun u => { u with roleIds := [roleId] }) (id_setRole roleId)
          user
        assigned := by
          intro u hu id hid
          obtain ⟨old, hold, rfl⟩ := mem_map.1 hu
          split_ifs at hid with hkey
          · rw [mem_singleton.1 hid]
            exact h.2
          · exact d.assigned old hold id hid }
  else none

/-! ## What a statement that succeeds does -/

variable {collate d} {d' : Directory}

theorem insertRole_eq_some {role : Role} (h : d.insertRole collate role = some d') :
    ∃ hid : d.table.findById role.id = none, d'.table = d.table.insert collate role hid ∧
      d'.accounts = d.accounts ∧ ∀ p ∈ role.parentRoleId, d.table.findById p ≠ none := by
  rw [insertRole] at h
  split_ifs at h with hnew
  cases h
  exact ⟨hnew.1, rfl, rfl, hnew.2.2⟩

theorem updateRole_eq_some {role : Role} (h : d.updateRole collate role = some d')
    (hid : d.table.findById role.id ≠ none) :
    d'.table = d.table.replace collate role ∧ d'.accounts = d.accounts ∧
      ∀ p ∈ role.parentRoleId, d.table.findById p ≠ none := by
  rw [updateRole, dif_neg hid] at h
  split_ifs at h with hname hp
  cases h
  exact ⟨rfl, rfl, hp⟩

theorem deleteRole_eq_some {id : ℕ} (h : d.deleteRole id = some d') :
    d'.table = d.table.remove id ∧ d'.accounts = d.accounts.dropRole id ∧
      d.table.childrenOf id = [] := by
  rw [deleteRole] at h
  split_ifs at h with hchildren
  cases h
  exact ⟨rfl, rfl, hchildren⟩

theorem setPermissions_eq_some {id : ℕ} {permissions : Finset Permission}
    (h : d.setPermissions id permissions = some d') :
    d'.table.roles = d.table.roles ∧ d'.accounts = d.accounts ∧
      ∀ i, i ≠ id → d'.table.grants i = d.table.grants i := by
  rw [setPermissions] at h
  split_ifs at h with hid hperm
  · cases h
    exact ⟨rfl, rfl, fun _ _ => rfl⟩
  · cases h
    exact ⟨rfl, rfl, fun i hi => Function.update_of_ne hi _ _⟩

theorem setUserRole_eq_some {user roleId : ℕ} (h : d.setUserRole user roleId = some d') :
    d'.table = d.table ∧ d.accounts.write (.setUserRole user roleId) = some d'.accounts := by
  rw [setUserRole] at h
  split_ifs at h with hexists
  cases h
  exact ⟨rfl, rfl⟩

end Directory

end Abyssal.Rbac
