import Abyssal.Rbac.RolePages

/-!
# What the role pages check

When nothing else touches the database, the queries of a handler compute what the functions
on the tables compute, and an accepted request has passed the checks its handler makes. This
file says which, for each of the pages, as conditions on the tables.
-/

namespace Abyssal.Rbac.RolePages

open Resumption.Handler List Forest

variable {collate : String → String → Bool} {d : Directory}

/-! ## Queries -/

section Queries

variable {op : Op} {answer : op.Answer}

/-- A query that leaves the tables as they are hands its answer on. -/
theorem alone_execute_bind {β : Type} {f : op.Answer → Page β} {r : Except Failure β × Directory}
    (h : alone (serve collate) (execute op >>= f) d = r)
    (hop : op.perform collate d = some (d, answer)) : alone (serve collate) (f answer) d = r := by
  have hreads : Reads (serve collate) (execute op) d answer := by
    refine reads_query ?_
    rw [serve, respond, hop]
    rfl
  rwa [hreads.alone_bind] at h

theorem alone_execute {d' : Directory} :
    alone (serve collate) (execute op) d = (.ok answer, d') ↔
      op.perform collate d = some (d', answer) := by
  rw [execute, alone_query_eq_ok, serve, respond, settle_eq_some]
  exact and_iff_right rfl

theorem of_perform_eq_some {o : Option Directory} {d' : Directory}
    (h : o.map (·, ()) = some (d', ())) : o = some d' := by
  obtain ⟨_, hd₁, heq⟩ := Option.map_eq_some_iff.1 h
  rw [hd₁, (Prod.mk.inj heq).1]

theorem parentOf_eq_bind (id : ℕ) :
    ((d.table.findById id).map fun role => (⟨role, d.system role.id⟩ : RoleRow)).bind
      (·.role.parentRoleId) = d.table.parentOf id := by
  rw [Option.bind_map]
  rfl

private theorem reads_ancestorChainFrom (hops id : ℕ) :
    Reads (serve collate) (ancestorChainFrom hops id) d (walk d.table.parentOf (hops + 1) id) := by
  induction hops generalizing id with
  | zero =>
    rw [walk]
    cases d.table.parentOf id with
    | none | some => exact reads_pure _ _
  | succ _ ih =>
    refine (reads_query rfl).bind ?_
    rw [parentOf_eq_bind, walk]
    cases d.table.parentOf id with
    | none => exact reads_pure _ _
    | some p => exact (ih p).bind (reads_pure _ _)

theorem reads_ancestorChain (id : ℕ) :
    Reads (serve collate) (ancestorChain id) d (d.table.ancestorChain id) :=
  reads_ancestorChainFrom _ id

theorem reads_isWithinSubtree (id root : ℕ) :
    Reads (serve collate) (isWithinSubtree id root) d (d.table.isWithinSubtree id root) :=
  (reads_ancestorChain id).bind (reads_pure _ _)

theorem reads_wouldCreateCycle (id proposed : ℕ) :
    Reads (serve collate) (wouldCreateCycle id proposed) d (d.table.wouldCreateCycle id proposed) :=
  reads_isWithinSubtree proposed id

theorem reads_depthOf (id : ℕ) : Reads (serve collate) (depthOf id) d (d.table.depthOf id) :=
  (reads_ancestorChain id).bind (reads_pure _ _)

private theorem reads_grantsUp (hops id : ℕ) :
    Reads (serve collate) (grantsUp hops id) d
      ((walk d.table.parentOf hops id).map d.table.grants) := by
  induction hops generalizing id with
  | zero => exact reads_pure _ _
  | succ _ ih =>
    refine (reads_query rfl).bind ((reads_query rfl).bind ?_)
    rw [parentOf_eq_bind, walk]
    cases d.table.parentOf id with
    | none => exact reads_pure _ _
    | some p => exact (ih p).bind (reads_pure _ _)

theorem reads_effectivePermissionsForRole (id : ℕ) :
    Reads (serve collate) (effectivePermissionsForRole id) d
      (d.table.effectivePermissionsForRole id) :=
  (reads_grantsUp _ id).bind (reads_pure _ _)

theorem reads_effectivePermissions (user : ℕ) :
    Reads (serve collate) (effectivePermissions user) d
      (Rbac.effectivePermissions d.table d.accounts user) := by
  refine (reads_query rfl).bind ?_
  rw [Rbac.effectivePermissions]
  induction rolesForUser d.table d.accounts user with
  | nil => exact reads_pure _ _
  | cons role _ ih =>
    exact (reads_effectivePermissionsForRole role.id).bind (ih.bind (reads_pure _ _))

private theorem reads_childrenOfAll (frontier : List ℕ) :
    Reads (serve collate) (childrenOfAll frontier) d (frontier.flatMap d.table.childrenOf) := by
  induction frontier with
  | nil => exact reads_pure _ _
  | cons _ _ ih => exact (reads_query rfl).bind (ih.bind (reads_pure _ _))

private theorem levelsBelow_nil (t : RoleTable) (hops : ℕ) : t.levelsBelow hops [] = [] := by
  induction hops with
  | zero => rfl
  | succ _ ih => exact ih

private theorem reads_levelsBelow (hops : ℕ) (frontier : List ℕ) :
    Reads (serve collate) (levelsBelow hops frontier) d (d.table.levelsBelow hops frontier) := by
  induction hops generalizing frontier with
  | zero => exact reads_pure _ _
  | succ _ ih =>
    rw [levelsBelow]
    split_ifs with hnil
    · rw [hnil, levelsBelow_nil]
      exact reads_pure _ _
    · exact (reads_childrenOfAll frontier).bind ((ih _).bind (reads_pure _ _))

theorem reads_withDescendants (roles : List Role) :
    Reads (serve collate) (withDescendants roles) d
      (roles.flatMap fun own => d.table.descendantsOf own.id ++ [own]) := by
  induction roles with
  | nil => exact reads_pure _ _
  | cons _ _ ih =>
    exact (reads_levelsBelow _ _).bind (ih.bind (reads_pure _ _))

theorem reads_withinAny (id : ℕ) (roles : List Role) :
    Reads (serve collate) (withinAny id roles) d
      (roles.any fun own => d.table.isWithinSubtree id own.id) := by
  induction roles with
  | nil => exact reads_pure _ _
  | cons own _ ih =>
    refine (reads_isWithinSubtree id own.id).bind ?_
    rw [any_cons]
    cases d.table.isWithinSubtree id own.id with
    | true => exact reads_pure _ _
    | false => exact ih

def contextOf (d : Directory) (user : ℕ) : Context :=
  ⟨user, Rbac.effectivePermissions d.table d.accounts user⟩

theorem noCeiling_contextOf {user : ℕ} :
    (contextOf d user).NoCeiling ↔ hasNoCeiling d.table d.accounts user := Iff.rfl

theorem reads_assignableRoles (user : ℕ) :
    Reads (serve collate) (assignableRoles (contextOf d user)) d
      (Rbac.assignableRoles d.table d.accounts user) := by
  rw [assignableRoles, Rbac.assignableRoles]
  by_cases hceil : hasNoCeiling d.table d.accounts user
  · rw [if_pos (noCeiling_contextOf.2 hceil), if_pos hceil]
    exact reads_query rfl
  · rw [if_neg fun h => hceil (noCeiling_contextOf.1 h), if_neg hceil]
    exact (reads_query rfl).bind ((reads_withDescendants _).bind (reads_pure _ _))

variable (collate d) in
theorem reads_capUnder (ctx : Context) (parent : Option ℕ) :
    ∃ cap, Reads (serve collate) (capUnder ctx parent) d cap := by
  cases parent with
  | none => exact ⟨_, reads_pure _ _⟩
  | some p => exact ⟨_, (reads_effectivePermissionsForRole p).bind (reads_pure _ _)⟩

end Queries

/-! ## Checks -/

/-- The user may manage the role: anyone's with no ceiling, and otherwise a custom role below
one of their own. -/
def CanManage (d : Directory) (user : ℕ) (role : Role) : Prop :=
  hasNoCeiling d.table d.accounts user ∨
    (∀ own ∈ rolesForUser d.table d.accounts user, own.id ≠ role.id) ∧
      ∃ own ∈ rolesForUser d.table d.accounts user, d.table.isWithinSubtree role.id own.id = true

def MayMove (d : Directory) (user id : ℕ) : Option ℕ → Prop
  | none => hasNoCeiling d.table d.accounts user
  | some p => id ∉ d.table.ancestorChain p ∧
      (hasNoCeiling d.table d.accounts user ∨
        ∃ role ∈ Rbac.assignableRoles d.table d.accounts user, role.id = p) ∧
      d.table.depthOf p + 1 ≤ maxRoleDepth

def MayCreate (d : Directory) (user : ℕ) : Option ℕ → Prop
  | none => hasNoCeiling d.table d.accounts user
  | some p => (∃ role ∈ Rbac.assignableRoles d.table d.accounts user, role.id = p) ∧
      d.table.depthOf p + 1 ≤ maxRoleDepth

section Checks

variable {user : ℕ}

theorem passes_ensureCanManageRole (row : RoleRow) :
    Passes (serve collate) (ensureCanManageRole (contextOf d user) row) d
      (CanManage d user row.role) := by
  intro d' h
  obtain ⟨-, h⟩ := alone_check_bind.1 h
  by_cases hceil : (contextOf d user).NoCeiling
  · rw [if_pos hceil] at h
    exact ⟨.inl (noCeiling_contextOf.1 hceil), (Prod.mk.inj h).2.symm⟩
  · rw [if_neg hceil] at h
    obtain ⟨-, h⟩ := alone_check_bind.1 h
    have h := alone_execute_bind h rfl
    obtain ⟨hown, h⟩ := alone_check_bind.1 h
    rw [(reads_withinAny _ _).alone_bind] at h
    obtain ⟨hsub, rfl⟩ := alone_check.1 h
    exact ⟨.inr ⟨hown, any_eq_true.1 hsub⟩, rfl⟩

theorem passes_checkTexts (name description : Text) :
    Passes (serve collate) (checkTexts name description) d True := by
  intro d' h
  obtain ⟨-, h⟩ := alone_check_bind.1 h
  obtain ⟨-, rfl⟩ := alone_check.1 h
  exact ⟨trivial, rfl⟩

theorem passes_checkMove (id : ℕ) (parent : Option ℕ) :
    Passes (serve collate) (checkMove (contextOf d user) id parent) d
      (MayMove d user id parent) := by
  cases parent with
  | none => exact passes_check _
  | some p =>
    intro d' h
    rw [checkMove, (reads_wouldCreateCycle id p).alone_bind] at h
    obtain ⟨hcycle, h⟩ := alone_check_bind.1 h
    rw [(reads_assignableRoles user).alone_bind] at h
    obtain ⟨hscope, h⟩ := alone_check_bind.1 h
    rw [(reads_depthOf p).alone_bind] at h
    obtain ⟨hdepth, rfl⟩ := alone_check.1 h
    refine ⟨⟨fun hmem => ?_, hscope, hdepth⟩, rfl⟩
    rw [RoleTable.wouldCreateCycle, RoleTable.isWithinSubtree, contains_iff_mem.2 hmem] at hcycle
    cases hcycle

theorem passes_checkParent (parent : Option Role) :
    Passes (serve collate) (checkParent (contextOf d user) parent) d
      (MayCreate d user (parent.map Role.id)) := by
  cases parent with
  | none => exact passes_check _
  | some role =>
    intro d' h
    rw [checkParent, (reads_assignableRoles user).alone_bind] at h
    obtain ⟨hscope, h⟩ := alone_check_bind.1 h
    rw [(reads_depthOf role.id).alone_bind] at h
    obtain ⟨hdepth, rfl⟩ := alone_check.1 h
    exact ⟨⟨hscope, hdepth⟩, rfl⟩

theorem alone_findById_bind {id : ℕ} {e : Failure} {f : RoleRow → Page Unit} {d' : Directory}
    (h : alone (serve collate) (do f (← found e (← execute (.findById id)))) d = (.ok (), d')) :
    ∃ role, d.table.findById id = some role ∧
      alone (serve collate) (f ⟨role, d.system role.id⟩) d = (.ok (), d') := by
  have h := alone_execute_bind h rfl
  obtain ⟨_, hrow, h⟩ := alone_found_bind.1 h
  obtain ⟨role, hrole, rfl⟩ := Option.map_eq_some_iff.1 hrow
  exact ⟨role, hrole, h⟩

/-- The id in a field that names a parent; none in a field that does not. -/
def ParentField.target : ParentField → Option ℕ
  | blank | malformed => none
  | given id => some id

variable {field : ParentField}

theorem alone_parse_bind {f : Option ℕ → Page Unit} {d' : Directory}
    (h : alone (serve collate) (field.parse >>= f) d = (.ok (), d')) :
    alone (serve collate) (f field.target) d = (.ok (), d') := by
  cases field with
  | blank | given => exact h
  | malformed => exact absurd h error_ne_ok

theorem alone_parentRole_bind {f : Option Role → Page Unit}
    {d' : Directory} (h : alone (serve collate) (parentRole field >>= f) d = (.ok (), d')) :
    ∃ parent, parent.map Role.id = field.target ∧
      alone (serve collate) (f parent) d = (.ok (), d') := by
  rw [parentRole, bind_assoc] at h
  have h := alone_parse_bind h
  cases htarget : field.target with
  | none =>
    rw [htarget] at h
    exact ⟨none, rfl, h⟩
  | some =>
    rw [htarget] at h
    simp only [bind_assoc, pure_bind] at h
    obtain ⟨role, hrole, h⟩ := alone_findById_bind h
    have hid := ((Table.find?_eq_some_iff d.table.nodup_id).1 hrole).2
    exact ⟨some role, congrArg some hid, h⟩

end Checks

/-! ## Accepted requests -/

def Accepted (collate : String → String → Bool) (d : Directory) (req : Request)
    (d' : Directory) : Prop := req.alone collate d = (.ok (), d')

section Accepted

variable {user id : ℕ} {d' : Directory}

theorem Accepted.handle {action : Action} (h : Accepted collate d ⟨user, action⟩ d') :
    alone (serve collate) (action.handle (contextOf d user)) d = (.ok (), d') := by
  rwa [Accepted, Request.alone, Request.page, (reads_effectivePermissions user).alone_bind] at h

theorem accepted_create {newId : ℕ} {form : CreateRoleForm}
    (h : Accepted collate d ⟨user, .create newId form⟩ d') :
    MayCreate d user form.parent.target ∧ ∃ name d₁,
      d.insertRole collate ⟨newId, name, form.parent.target⟩ = some d₁ ∧
        d₁.setPermissions newId form.permissions = some d' := by
  obtain ⟨-, h⟩ := alone_check_bind.1 h.handle
  obtain ⟨-, h⟩ := alone_check_bind.1 h
  obtain ⟨-, h⟩ := (passes_checkTexts _ _).of_bind h
  have h := alone_execute_bind h rfl
  obtain ⟨-, h⟩ := alone_check_bind.1 h
  obtain ⟨parent, hparent, h⟩ := alone_parentRole_bind h
  obtain ⟨hcreate, h⟩ := (passes_checkParent parent).of_bind h
  obtain ⟨cap, hcap⟩ := reads_capUnder collate d (contextOf d user) (parent.map Role.id)
  rw [hcap.alone_bind] at h
  obtain ⟨-, h⟩ := alone_check_bind.1 h
  obtain ⟨_, d₁, hinsert, h⟩ := alone_bind_eq_ok.1 h
  obtain ⟨_, -, h⟩ := alone_findById_bind h
  rw [alone_execute] at hinsert h
  rw [hparent] at hcreate hinsert
  exact ⟨hcreate, _, d₁, of_perform_eq_some hinsert, of_perform_eq_some h⟩

theorem accepted_edit {form : EditRoleForm} (h : Accepted collate d ⟨user, .edit id form⟩ d') :
    ∃ role name, d.table.findById id = some role ∧ CanManage d user role ∧
      (form.parent.target ≠ role.parentRoleId → MayMove d user id form.parent.target) ∧
        d.updateRole collate ⟨id, name, form.parent.target⟩ = some d' := by
  obtain ⟨-, h⟩ := alone_check_bind.1 h.handle
  obtain ⟨-, h⟩ := alone_check_bind.1 h
  obtain ⟨role, hrole, h⟩ := alone_findById_bind h
  obtain ⟨-, h⟩ := alone_check_bind.1 h
  obtain ⟨hmanage, h⟩ := (passes_ensureCanManageRole _).of_bind h
  obtain ⟨-, h⟩ := (passes_checkTexts _ _).of_bind h
  have h := alone_execute_bind h rfl
  obtain ⟨-, h⟩ := alone_check_bind.1 h
  have h := alone_parse_bind h
  by_cases hparent : form.parent.target ≠ role.parentRoleId
  · rw [if_pos hparent] at h
    obtain ⟨hmove, h⟩ := (passes_checkMove id _).of_bind h
    have hwrite := of_perform_eq_some (alone_execute.1 h)
    exact ⟨role, _, hrole, hmanage, fun _ => hmove, hwrite⟩
  · rw [if_neg hparent] at h
    have hwrite := of_perform_eq_some (alone_execute.1 h)
    exact ⟨role, _, hrole, hmanage, fun hne => absurd hne hparent, hwrite⟩

theorem accepted_delete {form : DeleteRoleForm}
    (h : Accepted collate d ⟨user, .delete id form⟩ d') :
    ∃ role, d.table.findById id = some role ∧ CanManage d user role ∧
      d.deleteRole id = some d' := by
  obtain ⟨-, h⟩ := alone_check_bind.1 h.handle
  obtain ⟨-, h⟩ := alone_check_bind.1 h
  obtain ⟨-, h⟩ := alone_check_bind.1 h
  obtain ⟨role, hrole, h⟩ := alone_findById_bind h
  obtain ⟨-, h⟩ := alone_check_bind.1 h
  obtain ⟨hmanage, h⟩ := (passes_ensureCanManageRole _).of_bind h
  obtain ⟨-, h⟩ := alone_check_bind.1 h
  have h := alone_execute_bind h rfl
  obtain ⟨-, h⟩ := alone_check_bind.1 h
  rw [alone_execute] at h
  exact ⟨role, hrole, hmanage, of_perform_eq_some h⟩

theorem accepted_apply {form : ApplyPermissionsForm}
    (h : Accepted collate d ⟨user, .apply id form⟩ d') :
    ∃ role permissions, d.table.findById id = some role ∧ CanManage d user role ∧
      d.setPermissions id permissions = some d' := by
  obtain ⟨-, h⟩ := alone_check_bind.1 h.handle
  obtain ⟨-, h⟩ := alone_check_bind.1 h
  obtain ⟨-, h⟩ := alone_check_bind.1 h
  obtain ⟨role, hrole, h⟩ := alone_findById_bind h
  obtain ⟨hmanage, h⟩ := (passes_ensureCanManageRole _).of_bind h
  obtain ⟨requested, -, h⟩ := alone_found_bind.1 h
  obtain ⟨_, hcap⟩ := reads_capUnder collate d (contextOf d user) role.parentRoleId
  rw [hcap.alone_bind] at h
  have h := alone_execute_bind h rfl
  rw [alone_execute] at h
  exact ⟨role, _, hrole, hmanage, of_perform_eq_some h⟩

theorem accepted_changeRole {form : ChangeRoleForm}
    (h : Accepted collate d ⟨user, .changeRole id form⟩ d') :
    id ≠ user ∧ d.setUserRole id form.roleId = some d' := by
  obtain ⟨-, h⟩ := alone_check_bind.1 h.handle
  obtain ⟨-, h⟩ := alone_check_bind.1 h
  obtain ⟨hne, h⟩ := alone_check_bind.1 h
  have h := alone_execute_bind h rfl
  obtain ⟨-, -, h⟩ := alone_found_bind.1 h
  have h := alone_execute_bind h rfl
  rw [(reads_assignableRoles user).alone_bind] at h
  obtain ⟨-, h⟩ := alone_check_bind.1 h
  obtain ⟨_, d₁, hwrite, h⟩ := alone_bind_eq_ok.1 h
  have h := alone_execute_bind h rfl
  obtain rfl := (Prod.mk.inj h).2
  rw [alone_execute] at hwrite
  exact ⟨hne, of_perform_eq_some hwrite⟩

end Accepted

end Abyssal.Rbac.RolePages
