import Abyssal.Rbac.Directory
import Abyssal.Rbac.UserManagement
import Abyssal.Resumption.Handler

/-!
# The pages that manage roles

Every request is checked against what the user may do, which is read when the request comes in, and
against the hierarchy of roles, which is walked one query at a time. The statements that write come
last, and other requests can write in between. A request that runs by itself is `Request.alone`.
-/

namespace Abyssal.Rbac.RolePages

open Resumption Resumption.Handler Text Permission

/-! ## Statements -/

structure RoleRow where
  role : Role
  isSystem : Bool

inductive Op where
  | findById (id : ℕ)
  | findByName (name : String)
  | list
  | childrenOf (id : ℕ)
  | rolesForUser (user : ℕ)
  | permissionsForRole (id : ℕ)
  | userCount (id : ℕ)
  | findUser (id : ℕ)
  | insertRole (role : Role)
  | updateRole (role : Role)
  | deleteRole (id : ℕ)
  | setPermissions (id : ℕ) (permissions : Finset Permission)
  | setUserRole (user roleId : ℕ)

abbrev Op.Answer : Op → Type
  | findById _ => Option RoleRow
  | findByName _ => Option Role
  | list | childrenOf _ | rolesForUser _ => List Role
  | permissionsForRole _ => Finset Permission
  | userCount _ => ℕ
  | findUser _ => Option User
  | insertRole _ | updateRole _ | deleteRole _ | setPermissions .. | setUserRole .. => Unit

variable (collate : String → String → Bool)

/-- The directory after a statement and its answer, unless a key forbids it. -/
def Op.perform (d : Directory) : (op : Op) → Option (Directory × op.Answer)
  | findById id => some (d, (d.table.findById id).map fun role => ⟨role, d.system role.id⟩)
  | findByName name => some (d, d.findByName collate name)
  | list => some (d, d.table.roles)
  | childrenOf id => some (d, d.table.childrenOf id)
  | rolesForUser user => some (d, Rbac.rolesForUser d.table d.accounts user)
  | permissionsForRole id => some (d, d.table.grants id)
  | userCount id => some (d, d.userCount id)
  | findUser id => some (d, d.accounts.findById id)
  | insertRole role => (d.insertRole collate role).map (·, ())
  | updateRole role => (d.updateRole collate role).map (·, ())
  | deleteRole id => (d.deleteRole id).map (·, ())
  | setPermissions id permissions => (d.setPermissions id permissions).map (·, ())
  | setUserRole user roleId => (d.setUserRole user roleId).map (·, ())

/-- A statement with its outcome; no answer means that the handler is told of an error. -/
def respond (op : Op) (c : Outcome) (d : Directory) : Directory × Option op.Answer :=
  settle c d (op.perform collate d)

abbrev serve (op : Op) (d : Directory) : Directory × Option op.Answer := respond collate op .done d

/-! ## Handlers -/

inductive Failure where
  | refused (refusal : Refusal)
  | database

abbrev Page := Handler Op Op.Answer Failure

def execute (op : Op) : Page op.Answer := query .database op

def require (p : Prop) [Decidable p] (refusal : Refusal) : Page Unit := check p (.refused refusal)

structure Context where
  user : ℕ
  permissions : Finset Permission

variable (ctx : Context)

def Context.NoCeiling : Prop := ∀ p ∈ all, p ∈ ctx.permissions

instance (ctx : Context) : Decidable ctx.NoCeiling :=
  inferInstanceAs (Decidable (∀ p ∈ all, _))

def Context.grantable : Finset Permission :=
  if ctx.NoCeiling then all.toFinset else ctx.permissions

/-- The role, its parent and so on, with at most `hops` queries. -/
def ancestorChainFrom : ℕ → ℕ → Page (List ℕ)
  | 0, id => pure [id]
  | hops + 1, id => do
    match (← execute (.findById id)).bind (·.role.parentRoleId) with
    | some parent => return id :: (← ancestorChainFrom hops parent)
    | none => return [id]

def ancestorChain (id : ℕ) : Page (List ℕ) := ancestorChainFrom maxAncestorWalk id

def isWithinSubtree (id root : ℕ) : Page Bool := return (← ancestorChain id).contains root

def depthOf (id : ℕ) : Page ℕ := return (← ancestorChain id).length

def wouldCreateCycle (id proposed : ℕ) : Page Bool := isWithinSubtree proposed id

/-- The grants of a role and of those above it, at most `hops` of them. -/
def grantsUp : ℕ → ℕ → Page (List (Finset Permission))
  | 0, _ => pure []
  | hops + 1, id => do
    let own ← execute (.permissionsForRole id)
    match (← execute (.findById id)).bind (·.role.parentRoleId) with
    | some parent => return own :: (← grantsUp hops parent)
    | none => return [own]

def effectivePermissionsForRole (id : ℕ) : Page (Finset Permission) :=
  return intersectChain (← grantsUp maxAncestorWalk id)

def effectivePermissionsOf : List Role → Page (Finset Permission)
  | [] => pure ∅
  | role :: roles => do
    let own ← effectivePermissionsForRole role.id
    return own ∪ (← effectivePermissionsOf roles)

def effectivePermissions (user : ℕ) : Page (Finset Permission) := do
  effectivePermissionsOf (← execute (.rolesForUser user))

def childrenOfAll : List ℕ → Page (List Role)
  | [] => pure []
  | id :: ids => do
    let children ← execute (.childrenOf id)
    return children ++ (← childrenOfAll ids)

/-- The roles on the levels under a frontier, as long as there are any. -/
def levelsBelow : ℕ → List ℕ → Page (List Role)
  | 0, _ => pure []
  | hops + 1, frontier =>
    if frontier = [] then pure []
    else do
      let children ← childrenOfAll frontier
      return children ++ (← levelsBelow hops (children.map Role.id))

def descendantsOf (id : ℕ) : Page (List Role) := levelsBelow maxAncestorWalk [id]

def withDescendants : List Role → Page (List Role)
  | [] => pure []
  | own :: roles => do
    let below ← descendantsOf own.id
    return (below ++ [own]) ++ (← withDescendants roles)

def assignableRoles : Page (List Role) :=
  if ctx.NoCeiling then execute .list
  else do
    let ownRoles ← execute (.rolesForUser ctx.user)
    return unseen [] (← withDescendants ownRoles)

def withinAny (id : ℕ) : List Role → Page Bool
  | [] => pure false
  | own :: roles => do
    if ← isWithinSubtree id own.id then return true
    withinAny id roles

/-- Whether the user may manage a role: one with no ceiling any role, others the custom roles
below their own. -/
def ensureCanManageRole (row : RoleRow) : Page Unit := do
  require (rolesManage ∈ ctx.permissions) .forbidden
  if ctx.NoCeiling then return
  require (row.isSystem = false) .forbidden
  let ownRoles ← execute (.rolesForUser ctx.user)
  require (∀ own ∈ ownRoles, own.id ≠ row.role.id) .forbidden
  require ((← withinAny row.role.id ownRoles) = true) .forbidden

inductive ParentField where
  | blank
  | malformed
  | given (id : ℕ)

/-- The id in the field, or none if the field is blank. -/
def ParentField.parse : ParentField → Page (Option ℕ)
  | blank => pure none
  | malformed => throw (.refused (.page (some "Not a recognized parent role.")))
  | given id => pure (some id)

/-- The permissions that the user may give to a role under the given parent. -/
def capUnder : Option ℕ → Page (Finset Permission)
  | none => pure ctx.grantable
  | some parent => return ctx.grantable ∩ (← effectivePermissionsForRole parent)

def checkTexts (name description : Text) : Page Unit := do
  require (name ≠ [] ∧ byteLength name ≤ 100)
    (.page (some "Role name must be 1-100 characters."))
  require (byteLength description ≤ 500)
    (.page (some "Description must be 500 characters or fewer."))

def depthMessage : String :=
  s!"That parent is already at the maximum nesting depth ({maxRoleDepth})."

structure CreateRoleForm where
  csrfValid : Bool
  name : Text
  description : Text
  parent : ParentField
  permissions : Finset Permission

def parentRole (field : ParentField) : Page (Option Role) := do
  match ← field.parse with
  | none => return none
  | some parent =>
    let row ← found (.refused (.page (some "Not a recognized parent role.")))
      (← execute (.findById parent))
    return some row.role

/-- At the root with no ceiling, under a role they may assign if that is not too deep. -/
def checkParent : Option Role → Page Unit
  | none => require ctx.NoCeiling .forbidden
  | some parent => do
    let creatable ← assignableRoles ctx
    require (∃ role ∈ creatable, role.id = parent.id) .forbidden
    require ((← depthOf parent.id) + 1 ≤ maxRoleDepth) (.page (some depthMessage))

def createRole (newId : ℕ) (form : CreateRoleForm) : Page Unit := do
  require (rolesManage ∈ ctx.permissions) .forbidden
  require form.csrfValid (.validation csrfMessage)
  let name := trim form.name
  checkTexts name (trim form.description)
  require ((← execute (.findByName (String.ofList name))) = none)
    (.page (some "A role named that already exists."))
  let parent ← parentRole form.parent
  checkParent ctx parent
  let cap ← capUnder ctx (parent.map Role.id)
  require (form.permissions ⊆ cap) .forbidden
  execute (.insertRole ⟨newId, String.ofList name, parent.map Role.id⟩)
  let _ ← found .database (← execute (.findById newId))
  execute (.setPermissions newId form.permissions)

structure EditRoleForm where
  csrfValid : Bool
  name : Text
  description : Text
  parent : ParentField

def checkMove (id : ℕ) : Option ℕ → Page Unit
  | none => require ctx.NoCeiling .forbidden
  | some parent => do
    require ((← wouldCreateCycle id parent) = false)
      (.page (some "That would create a cycle in the role hierarchy."))
    let creatable ← assignableRoles ctx
    require (ctx.NoCeiling ∨ ∃ role ∈ creatable, role.id = parent) .forbidden
    require ((← depthOf parent) + 1 ≤ maxRoleDepth) (.page (some depthMessage))

def editRole (id : ℕ) (form : EditRoleForm) : Page Unit := do
  require (rolesManage ∈ ctx.permissions) .forbidden
  require form.csrfValid (.validation csrfMessage)
  let row ← found (.refused .notFound) (← execute (.findById id))
  require (row.isSystem = false) .forbidden
  ensureCanManageRole ctx row
  let name := trim form.name
  checkTexts name (trim form.description)
  let existing ← execute (.findByName (String.ofList name))
  require (∀ other ∈ existing, other.id = id) (.page (some "A role named that already exists."))
  let newParent ← form.parent.parse
  -- Only a change of the parent is checked, and only for the role itself.
  if newParent ≠ row.role.parentRoleId then
    checkMove ctx id newParent
  execute (.updateRole ⟨id, String.ofList name, newParent⟩)

structure DeleteRoleForm where
  csrfValid : Bool
  confirm : Bool
  confirmText : Text

def deleteRole (id : ℕ) (form : DeleteRoleForm) : Page Unit := do
  require (rolesManage ∈ ctx.permissions) .forbidden
  require form.csrfValid (.validation csrfMessage)
  require form.confirm (.validation "Removal was not confirmed.")
  let row ← found (.refused .notFound) (← execute (.findById id))
  require (row.isSystem = false) .forbidden
  ensureCanManageRole ctx row
  require (String.ofList (trim form.confirmText) = row.role.name)
    (.validation s!"Typed confirmation didn't match \"{row.role.name}\" -- please try again.")
  let userCount ← execute (.userCount id)
  let childCount := (← execute (.childrenOf id)).length
  require (userCount = 0 ∧ childCount = 0)
    (.validation (s!"Can't delete \"{row.role.name}\": {userCount} user(s) and {childCount} " ++
      "child role(s) are still assigned to it. Reassign them first."))
  execute (.deleteRole id)

structure ApplyPermissionsForm where
  csrfValid : Bool
  confirm : Bool
  permissions : Option (Finset Permission)

/-- Setting a role's permissions. Those that the user may not give are left as they are. -/
def applyPermissions (id : ℕ) (form : ApplyPermissionsForm) : Page Unit := do
  require (rolesManage ∈ ctx.permissions) .forbidden
  require form.csrfValid (.validation csrfMessage)
  require form.confirm (.validation "Saving permissions was not confirmed.")
  let row ← found (.refused .notFound) (← execute (.findById id))
  ensureCanManageRole ctx row
  let requested ← found (.refused (.validation "Malformed permission set.")) form.permissions
  let cap ← capUnder ctx row.role.parentRoleId
  let current ← execute (.permissionsForRole id)
  execute (.setPermissions id (requested ∩ cap ∪ current \ cap))

def changeRole (id : ℕ) (form : ChangeRoleForm) : Page Unit := do
  require (usersModify ∈ ctx.permissions) .forbidden
  require form.csrfValid (.validation csrfMessage)
  require (id ≠ ctx.user) .forbidden
  let _ ← found (.refused .notFound) (← execute (.findUser id))
  let previous := (← execute (.rolesForUser id)).head?
  let assignable ← assignableRoles ctx
  require ((ctx.NoCeiling ∨ ∃ role ∈ previous, ∃ own ∈ assignable, own.id = role.id) ∧
    ∃ own ∈ assignable, own.id = form.roleId) .forbidden
  execute (.setUserRole id form.roleId)
  let _ ← execute (.findById form.roleId)

/-! ## Requests -/

inductive Action where
  | create (newId : ℕ) (form : CreateRoleForm)
  | edit (id : ℕ) (form : EditRoleForm)
  | delete (id : ℕ) (form : DeleteRoleForm)
  | apply (id : ℕ) (form : ApplyPermissionsForm)
  | changeRole (id : ℕ) (form : ChangeRoleForm)

def Action.handle : Action → Page Unit
  | create newId form => createRole ctx newId form
  | edit id form => editRole ctx id form
  | delete id form => deleteRole ctx id form
  | apply id form => applyPermissions ctx id form
  | changeRole id form => RolePages.changeRole ctx id form

structure Request where
  user : ℕ
  action : Action

def Request.page (req : Request) : Page Unit := do
  let permissions ← effectivePermissions req.user
  req.action.handle ⟨req.user, permissions⟩

def Request.code (req : Request) : Prog Op (fun op => Option op.Answer) (Except Failure Unit) :=
  req.page.run

/-- A request that runs by itself, with a database that executes every statement. -/
def Request.alone (req : Request) (d : Directory) : Except Failure Unit × Directory :=
  Handler.alone (serve collate) req.page d

/-- The directory after a request that ran by itself, if it was accepted. -/
def step (d : Directory) (req : Request) : Directory :=
  match req.alone collate d with
  | (.ok _, d') => d'
  | (.error _, _) => d

end Abyssal.Rbac.RolePages
