import Abyssal.Forest.Walk
import Abyssal.Table.Keyed
import Mathlib.Data.Finset.Basic

/-!
# Roles and effective permissions

A role's effective permissions are its own grants cut down by those of every role above it. All
walks are bounded by `maxAncestorWalk`. Where every chain of parents ends within the bound both
walks are complete, and the walk down finds only roles that have no permission the role lacks.
-/

namespace Abyssal.Rbac

open List Forest

inductive Permission where
  | usersView | usersCreate | usersModify | usersDelete
  | systemsView | systemsManage
  | hostUsersView | hostUsersManage
  | networkView | networkManage | networkScan | networkNac
  | securityView | securityManage
  | containersView | containersManage
  | storageView | storageManage
  | backupsView | backupsCreate | backupsRestore
  | incidentsView | incidentsRespond
  | auditView | auditExport | auditManage
  | rolesManage | modulesManage | settingsManage | notificationsManage
  | hostsView | hostsEnroll | hostsManage | hostsElevate
  | macrosManageAll
  | storageConnectionsView | storageConnectionsManage
  | scourgeView | scourgeManage
  | directoryView | directoryHelpdesk | directoryManage | directoryDelete
  | directoryPrivileged | directoryConfigure
  deriving DecidableEq

def Permission.all : List Permission :=
  [.usersView, .usersCreate, .usersModify, .usersDelete, .systemsView, .systemsManage,
    .hostUsersView, .hostUsersManage, .networkView, .networkManage, .networkScan, .networkNac,
    .securityView, .securityManage, .containersView, .containersManage, .storageView,
    .storageManage, .backupsView, .backupsCreate, .backupsRestore, .incidentsView,
    .incidentsRespond, .auditView, .auditExport, .auditManage, .rolesManage, .modulesManage,
    .settingsManage, .notificationsManage, .hostsView, .hostsEnroll, .hostsManage, .hostsElevate,
    .macrosManageAll, .storageConnectionsView, .storageConnectionsManage, .scourgeView,
    .scourgeManage, .directoryView, .directoryHelpdesk, .directoryManage, .directoryDelete,
    .directoryPrivileged, .directoryConfigure]

theorem Permission.mem_all (p : Permission) : p ∈ Permission.all := by
  cases p <;> decide

structure Role where
  id : ℕ
  name : String
  parentRoleId : Option ℕ
  deriving DecidableEq

/-- The roles, in the order of their names, and what each grants by itself. -/
structure RoleTable where
  roles : List Role
  grants : ℕ → Finset Permission
  nodup_id : (roles.map Role.id).Nodup

def maxAncestorWalk : ℕ := 20

/-- The intersection of the sets along a chain; nothing for an empty chain. -/
def intersectChain : List (Finset Permission) → Finset Permission
  | [] => ∅
  | first :: rest => rest.foldl (· ∩ ·) first

theorem mem_intersectChain {chain : List (Finset Permission)} {p : Permission} :
    p ∈ intersectChain chain ↔ chain ≠ [] ∧ ∀ s ∈ chain, p ∈ s := by
  cases chain with
  | nil => simp [intersectChain]
  | cons =>
    have hfold : ∀ (l : List (Finset Permission)) (acc : Finset Permission),
        p ∈ l.foldl (· ∩ ·) acc ↔ p ∈ acc ∧ ∀ s ∈ l, p ∈ s := by
      intro l
      induction l with
      | nil => simp
      | cons s l ih =>
        intro acc
        rw [foldl_cons, ih, Finset.mem_inter, forall_mem_cons, and_assoc]
    rw [intersectChain, hfold]
    simp

namespace RoleTable

variable (t : RoleTable) (id : ℕ)

def findById : Option Role := t.roles.find? (·.id = id)

def parentOf : Option ℕ := (t.findById id).bind Role.parentRoleId

def childrenOf : List Role := t.roles.filter (·.parentRoleId = some id)

/-- The roles on the given number of levels under a frontier, level by level. -/
def levelsBelow : ℕ → List ℕ → List Role
  | 0, _ => []
  | n + 1, frontier =>
    let children := frontier.flatMap t.childrenOf
    children ++ levelsBelow n (children.map Role.id)

def descendantsOf : List Role := t.levelsBelow maxAncestorWalk [id]

/-- The role, its parent, and so on up to the root, with at most `maxAncestorWalk` hops. -/
def ancestorChain : List ℕ := walk t.parentOf (maxAncestorWalk + 1) id

def isWithinSubtree (id root : ℕ) : Bool := (t.ancestorChain id).contains root

def effectivePermissionsForRole : Finset Permission :=
  intersectChain ((walk t.parentOf maxAncestorWalk id).map t.grants)

/-- `root` is the role or above it, at any distance. -/
def Above (root id : ℕ) : Prop := Forest.Above t.parentOf root id

/-- Every role's way to its root fits into the bound. -/
def Shallow : Prop := ∀ role ∈ t.roles, Forest.Rooted t.parentOf maxAncestorWalk role.id

instance : Decidable t.Shallow :=
  inferInstanceAs (Decidable (∀ role ∈ t.roles, _))

variable {t} {id : ℕ}

theorem mem_effective {p : Permission} :
    p ∈ t.effectivePermissionsForRole id ↔
      ∀ i ∈ walk t.parentOf maxAncestorWalk id, p ∈ t.grants i := by
  rw [effectivePermissionsForRole, mem_intersectChain, forall_mem_map]
  refine and_iff_right ?_
  rw [Ne]
  exact cons_ne_nil _ _

variable {role : Role}

theorem findById_of_mem (h : role ∈ t.roles) : t.findById role.id = some role :=
  (Table.find?_eq_some_iff t.nodup_id).2 ⟨h, rfl⟩

theorem mem_childrenOf : role ∈ t.childrenOf id ↔ role ∈ t.roles ∧ role.parentRoleId = some id := by
  rw [childrenOf, mem_filter, decide_eq_true_eq]

theorem parentOf_of_mem_childrenOf (h : role ∈ t.childrenOf id) : t.parentOf role.id = some id := by
  obtain ⟨hmem, hparent⟩ := mem_childrenOf.1 h
  rwa [parentOf, findById_of_mem hmem]

private theorem mem_levelsBelow {n : ℕ} {frontier : List ℕ} (h : role ∈ t.levelsBelow n frontier) :
    role ∈ t.roles ∧ ∃ id ∈ frontier, t.Above id role.id := by
  induction n generalizing frontier with
  | zero => cases h
  | succ n ih =>
    rcases mem_append.1 h with hchild | hbelow
    · obtain ⟨id, hid, hrole⟩ := mem_flatMap.1 hchild
      exact ⟨(mem_childrenOf.1 hrole).1, id, hid, .of_parent (parentOf_of_mem_childrenOf hrole)⟩
    · obtain ⟨hmem, _, hchild, habove⟩ := ih hbelow
      obtain ⟨c, hc, rfl⟩ := mem_map.1 hchild
      obtain ⟨id, hid, hrole⟩ := mem_flatMap.1 hc
      exact ⟨hmem, id, hid, .trans (.of_parent (parentOf_of_mem_childrenOf hrole)) habove⟩

theorem mem_descendantsOf (h : role ∈ t.descendantsOf id) :
    role ∈ t.roles ∧ t.Above id role.id := by
  obtain ⟨hmem, _, hroot, habove⟩ := mem_levelsBelow h
  exact ⟨hmem, mem_singleton.1 hroot ▸ habove⟩

theorem above_of_isWithinSubtree {root : ℕ} (h : t.isWithinSubtree id root) : t.Above root id := by
  rw [isWithinSubtree, contains_iff_mem] at h
  exact above_of_mem_walk h

theorem Shallow.effective_subset (h : t.Shallow) (hrole : role ∈ t.roles) {root : ℕ}
    (habove : t.Above root role.id) :
    t.effectivePermissionsForRole role.id ⊆ t.effectivePermissionsForRole root := by
  intro p hp
  rw [mem_effective] at hp ⊢
  refine fun i hi => hp i ((h role hrole).mem_walk_of_above ?_)
  exact .trans (above_of_mem_walk hi) habove

end RoleTable

end Abyssal.Rbac
