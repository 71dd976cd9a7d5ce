import Abyssal.Rbac.RoleForest

/-!
# Delegated administration does not escalate

What a role below the administrator's grants is cut down by the roles above it. `Confines` says what
one request can change: rows and grants of roles below the administrator's own, which stay below. It
rests on the walks reaching every role above; an administrator can move roles so that one at the
bottom is out of reach of those that would cut down its grants.

## Main results

* `delegated_of_fits`: nothing above is gained.
-/

namespace Abyssal.Rbac

open List Option Function RoleTable Directory

/-- The role is one of the user's own, or below one. -/
def Below (d : Directory) (user id : ℕ) : Prop :=
  ∃ own ∈ rolesForUser d.table d.accounts user, d.table.Above own.id id

/-- The user has the roles they had, a role that is not below the user's own stays, and all others
stay or come to be below. -/
structure Confines (user : ℕ) (d d' : Directory) : Prop where
  own : ∀ role, role ∈ rolesForUser d'.table d'.accounts user ↔
    role ∈ rolesForUser d.table d.accounts user
  row : ∀ i, d.table.findById i ≠ none →
    (Below d user i → ∃ own ∈ rolesForUser d.table d.accounts user, own.id = i) →
      d'.table.findById i = d.table.findById i ∧ d'.table.grants i = d.table.grants i
  below : ∀ i, d'.table.findById i ≠ none → (d.table.findById i ≠ none → Below d user i) →
    Below d' user i

/-- The role has the row and the grants that it had. -/
abbrev SameRow (d d' : Directory) (i : ℕ) : Prop :=
  d'.table.findById i = d.table.findById i ∧ d'.table.grants i = d.table.grants i

namespace Confines

variable {user : ℕ} {d d' : Directory} {i j : ℕ}

open Forest

theorem not_below_of_above (hout : ¬ Below d user i) (hj : d.table.Above j i) : ¬ Below d user j :=
  fun ⟨own, hown, habove⟩ => hout ⟨own, hown, Above.trans habove hj⟩

variable (hc : Confines user d d') (hi : d.table.findById i ≠ none) (hout : ¬ Below d user i)
include hc hi hout

theorem row_of_above (hj : d.table.Above j i) : SameRow d d' j :=
  hc.row j (d.closed.findById_of_above hi hj) fun h => absurd h (not_below_of_above hout hj)

theorem parentOf_of_above (hj : d.table.Above j i) : d'.table.parentOf j = d.table.parentOf j := by
  rw [parentOf, (hc.row_of_above hi hout hj).1]
  rfl

private theorem above_of_above (hj : d'.table.Above j i) : d.table.Above j i := by
  induction hj with
  | refl => exact .refl i
  | tail _ hstep ih =>
    rw [hc.parentOf_of_above hi hout ih] at hstep
    exact (Above.of_parent hstep).trans ih

theorem not_below : ¬ Below d' user i := by
  rintro ⟨own, hown, habove⟩
  exact hout ⟨own, (hc.own own).1 hown, hc.above_of_above hi hout habove⟩

theorem walk_eq (n : ℕ) : walk d'.table.parentOf n i = walk d.table.parentOf n i :=
  walk_congr fun _ hj => hc.parentOf_of_above hi hout (above_of_mem_walk hj)

/-- **Roles outside** keep their row, their grants and their effective permissions. -/
theorem outside :
    d'.table.findById i = d.table.findById i ∧ d'.table.grants i = d.table.grants i ∧
      d'.table.effectivePermissionsForRole i = d.table.effectivePermissionsForRole i := by
  obtain ⟨hrow, hgrants⟩ := hc.row_of_above hi hout (.refl i)
  refine ⟨hrow, hgrants, ?_⟩
  rw [effectivePermissionsForRole, hc.walk_eq hi hout]
  refine congrArg intersectChain (map_congr_left fun j hj => ?_)
  exact (hc.row_of_above hi hout (above_of_mem_walk hj)).2

omit hi hout

private theorem row_of_last {own : Role} (hown : own ∈ rolesForUser d'.table d'.accounts user)
    (hlast : ∀ p ∈ d'.table.parentOf own.id, ∀ k, d'.table.Above k p →
      ¬ ∃ other ∈ rolesForUser d'.table d'.accounts user, other.id = k)
    (hj : d.table.Above j own.id) : SameRow d d' j := by
  have hown₀ := (hc.own own).1 hown
  have hexists : d.table.findById own.id ≠ none :=
    findById_of_mem (mem_roles_of_rolesForUser hown₀) ▸ some_ne_none own
  have hself := hc.row own.id hexists fun _ => ⟨own, hown₀, rfl⟩
  rcases Relation.ReflTransGen.cases_head hj with rfl | ⟨p, hp, hjp⟩
  · exact hself
  · have hp' : d'.table.parentOf own.id = some p := by
      rwa [parentOf, hself.1]
    have hexists' : d'.table.findById own.id ≠ none := hself.1 ▸ hexists
    have hpexists := d.closed.findById_of_above hexists (.of_parent hp)
    have hpexists' := d'.closed.findById_of_above hexists' (.of_parent hp')
    -- The parent is outside afterwards, so it was outside before.
    have hout : ¬ Below d user p := by
      intro hbelow
      obtain ⟨other, hother, habove⟩ := hc.below p hpexists' fun _ => hbelow
      exact hlast p hp' other.id habove ⟨other, hother, rfl⟩
    exact hc.row_of_above hpexists hout hjp

theorem effectivePermissions_subset (hshallow : d'.table.Shallow) :
    effectivePermissions d'.table d'.accounts user ⊆
      effectivePermissions d.table d.accounts user := by
  intro p hp
  obtain ⟨role, hrole, hp⟩ := mem_effectivePermissions.1 hp
  have hrooted := hshallow role (mem_roles_of_rolesForUser hrole)
  obtain ⟨_, htop, ⟨own, hown, rfl⟩, hlast⟩ := hrooted.exists_last
    (S := fun k => ∃ own ∈ rolesForUser d'.table d'.accounts user, own.id = k)
    ⟨role.id, hrooted.mem_self, role, hrole, rfl⟩
  have hrow : ∀ j, d.table.Above j own.id → _ := fun j => hc.row_of_last hown hlast
  refine mem_effectivePermissions.2 ⟨own, (hc.own own).1 hown, ?_⟩
  rw [mem_effective] at hp ⊢
  intro j hj
  have habove := above_of_mem_walk hj
  rw [← (hrow j habove).2]
  have habove' : d'.table.Above j own.id := Above.congr
    (fun k hk => by rw [parentOf, (hrow k hk).1]; rfl) habove
  exact hp j (hrooted.mem_walk_of_above
    (Above.trans habove' (above_of_mem_walk htop)))

end Confines

/-! ## What a request changes -/

def HasRole (a : Accounts) (user id : ℕ) : Prop :=
  ∃ u, a.findById user = some u ∧ id ∈ u.roleIds

section Changes

variable {user : ℕ} {d d' : Directory} {r : ℕ} {a : Accounts}

theorem mem_rolesForUser {t : RoleTable} {role : Role} :
    role ∈ rolesForUser t a user ↔ t.findById role.id = some role ∧ HasRole a user role.id := by
  rw [rolesForUser, HasRole]
  cases a.findById user with
  | none => simp
  | some => simp [mem_filter, mem_roles_iff]

variable {id : ℕ}

theorem findById_of_hasRole (h : HasRole d.accounts user id) : d.table.findById id ≠ none := by
  obtain ⟨u, hu, hid⟩ := h
  exact d.assigned u (mem_of_find?_eq_some hu) id hid

theorem hasRole_dropRole {id' : ℕ} :
    HasRole (a.dropRole id) user id' ↔ HasRole a user id' ∧ id' ≠ id := by
  have hfind : (a.dropRole id).findById user =
      (a.findById user).map fun u => { u with roleIds := u.roleIds.filter (· ≠ id) } := by
    rw [Accounts.findById, Accounts.dropRole, find?_map]
    rfl
  rw [HasRole, HasRole, hfind]
  cases a.findById user with
  | none => simp
  | some => simp [mem_filter]

theorem Confines.of_change (hr : ¬ HasRole d.accounts user r) (hrow : ∀ i, i ≠ r → SameRow d d' i)
    (haccounts : ∀ id, HasRole d'.accounts user id ↔ HasRole d.accounts user id)
    (hbelow₀ : d.table.findById r ≠ none → Below d user r)
    (hbelow : ∀ i, d'.table.findById i ≠ none → d.table.Above r i →
      ∃ own ∈ rolesForUser d.table d.accounts user, d'.table.Above own.id i) :
    Confines user d d' := by
  have hown : ∀ role, role ∈ rolesForUser d'.table d'.accounts user ↔
      role ∈ rolesForUser d.table d.accounts user := by
    intro role
    rw [mem_rolesForUser, mem_rolesForUser, haccounts]
    refine and_congr_left fun hhas => ?_
    rw [(hrow role.id fun heq => hr (heq ▸ hhas)).1]
  refine ⟨hown, fun i hi hkeep => hrow i fun heq => ?_, fun i hi hbelow' => ?_⟩
  · subst heq
    obtain ⟨own, hmem, hid⟩ := hkeep (hbelow₀ hi)
    exact hr (hid ▸ (mem_rolesForUser.1 hmem).2)
  · by_cases habove : d.table.Above r i
    · obtain ⟨own, hmem, hi'⟩ := hbelow i hi habove
      exact ⟨own, (hown own).2 hmem, hi'⟩
    · have hne : i ≠ r := fun heq => habove (heq ▸ .refl i)
      obtain ⟨own, hmem, hi'⟩ := hbelow' ((hrow i hne).1 ▸ hi)
      refine ⟨own, (hown own).2 hmem, ?_⟩
      rw [RoleTable.Above, parentOf_eq_update fun i hi => (hrow i hi).1]
      exact hi'.update_of_not habove

theorem Confines.of_move (hr : ¬ HasRole d.accounts user r) (hrow : ∀ i, i ≠ r → SameRow d d' i)
    (haccounts : d'.accounts = d.accounts) (hbelow₀ : d.table.findById r ≠ none → Below d user r)
    (hbelow : ∃ own ∈ rolesForUser d.table d.accounts user, d'.table.Above own.id r) :
    Confines user d d' := by
  refine .of_change hr hrow (fun id => haccounts ▸ Iff.rfl) hbelow₀ fun i _ habove => ?_
  obtain ⟨own, hown, hr'⟩ := hbelow
  refine ⟨own, hown, Forest.Above.trans hr' ?_⟩
  rw [parentOf_eq_update fun i hi => (hrow i hi).1]
  exact habove.update_self

theorem exists_above_of_parent {p : ℕ}
    (hrow : ∀ i, i ≠ r → d'.table.findById i = d.table.findById i)
    (hparent : d'.table.parentOf r = some p) (hp : Below d user p) (hcycle : ¬ d.table.Above r p) :
    ∃ own ∈ rolesForUser d.table d.accounts user, d'.table.Above own.id r := by
  obtain ⟨own, hown, habove⟩ := hp
  refine ⟨own, hown, Forest.Above.trans ?_ (.of_parent hparent)⟩
  rw [parentOf_eq_update hrow]
  exact habove.update_of_not hcycle

end Changes

namespace RolePages

section Accepted

variable {collate : String → String → Bool} {user : ℕ} {d d' : Directory} {role : Role}

theorem below_of_canManage (hceil : ¬ hasNoCeiling d.table d.accounts user)
    (hrole : d.table.findById role.id = some role) (h : CanManage d user role) :
    Below d user role.id ∧ ¬ HasRole d.accounts user role.id := by
  obtain ⟨hown, own, hmem, hsub⟩ := h.resolve_left hceil
  refine ⟨⟨own, hmem, above_of_isWithinSubtree hsub⟩, fun hhas => ?_⟩
  exact hown role (mem_rolesForUser.2 ⟨hrole, hhas⟩) rfl

theorem below_of_assignable (hceil : ¬ hasNoCeiling d.table d.accounts user)
    (h : role ∈ Rbac.assignableRoles d.table d.accounts user) : Below d user role.id := by
  rw [Rbac.assignableRoles, if_neg hceil] at h
  obtain ⟨own, hown, hrole⟩ := mem_flatMap.1 (mem_of_mem_unseen h)
  refine ⟨own, hown, ?_⟩
  rcases mem_append.1 hrole with hdesc | hself
  · exact (mem_descendantsOf hdesc).2
  · rw [mem_singleton.1 hself]
    exact .refl _

section Cases

variable (hceil : ¬ hasNoCeiling d.table d.accounts user)
include hceil

theorem confines_create {newId : ℕ} {form : CreateRoleForm}
    (h : Accepted collate d ⟨user, .create newId form⟩ d') : Confines user d d' := by
  obtain ⟨hcreate, name, _, hinsert, hgrant⟩ := accepted_create h
  cases htarget : form.parent.target with
  | none =>
    rw [htarget] at hcreate
    exact absurd hcreate hceil
  | some p =>
    rw [htarget] at hcreate hinsert
    obtain ⟨⟨role, hassign, rfl⟩, -⟩ := hcreate
    obtain ⟨hid, htable, haccounts, hp⟩ := insertRole_eq_some hinsert
    obtain ⟨hroles, haccounts', hgrants⟩ := setPermissions_eq_some hgrant
    have hfind : ∀ i, d'.table.findById i =
        if newId = i then some ⟨newId, name, some role.id⟩ else d.table.findById i := by
      intro i
      rw [findById_congr hroles, htable, findById_insert]
    have hnew : ¬ HasRole d.accounts user newId := fun hhas => findById_of_hasRole hhas hid
    have hrow : ∀ i, i ≠ newId → SameRow d d' i := by
      intro i hi
      rw [SameRow, hfind, if_neg (Ne.symm hi), hgrants i hi, htable]
      exact ⟨rfl, update_of_ne hi _ _⟩
    refine .of_move hnew hrow (haccounts'.trans haccounts) (absurd hid) ?_
    refine exists_above_of_parent (fun i hi => (hrow i hi).1) (p := role.id) ?_
      (below_of_assignable hceil hassign) fun habove => ?_
    · exact parentOf_of_findById ((hfind newId).trans (if_pos rfl))
    · exact d.closed.findById_of_above (hp role.id rfl) habove hid

variable {id : ℕ}

theorem confines_edit {form : EditRoleForm}
    (h : Accepted collate d ⟨user, .edit id form⟩ d') : Confines user d d' := by
  obtain ⟨role, _, hrole, hmanage, hmove, hupdate⟩ := accepted_edit h
  obtain ⟨-, rfl⟩ := (Table.find?_eq_some_iff d.table.nodup_id).1 hrole
  have hid : d.table.findById role.id ≠ none := hrole ▸ some_ne_none role
  obtain ⟨htable, haccounts, -⟩ := updateRole_eq_some hupdate hid
  obtain ⟨hbelow, hnot⟩ := below_of_canManage hceil hrole hmanage
  have hrow : ∀ i, i ≠ role.id → SameRow d d' i := by
    intro i hi
    rw [SameRow, htable, findById_replace, if_neg (Ne.symm hi)]
    exact ⟨rfl, rfl⟩
  refine .of_move hnot hrow haccounts (fun _ => hbelow) ?_
  have hparent : d'.table.parentOf =
      update d.table.parentOf role.id form.parent.target := by
    rw [htable, parentOf_replace]
  by_cases hsame : form.parent.target = role.parentRoleId
  · -- The role stays where it is.
    have hkeep : d'.table.parentOf = d.table.parentOf := by
      rw [hparent, hsame, ← parentOf_of_findById hrole, update_eq_self]
    obtain ⟨own, hown, habove⟩ := hbelow
    refine ⟨own, hown, ?_⟩
    rwa [RoleTable.Above, hkeep]
  · have hmove := hmove hsame
    cases htarget : form.parent.target with
    | none =>
      rw [htarget] at hmove
      exact absurd hmove hceil
    | some =>
      rw [htarget] at hmove hparent
      obtain ⟨hcycle, hscope, hdepth⟩ := hmove
      obtain ⟨other, hassign, rfl⟩ := hscope.resolve_left hceil
      refine exists_above_of_parent (fun i hi => (hrow i hi).1) ?_
        (below_of_assignable hceil hassign) fun habove => hcycle ?_
      · rw [hparent, update_self]
      · have hrooted :=
          (depthOf_le_iff le_rfl).1 (le_trans (Nat.le_of_succ_le hdepth) (by decide))
        rw [ancestorChain_eq hrooted le_rfl]
        exact hrooted.mem_walk_of_above habove

theorem confines_delete {form : DeleteRoleForm}
    (h : Accepted collate d ⟨user, .delete id form⟩ d') : Confines user d d' := by
  obtain ⟨role, hrole, hmanage, hdelete⟩ := accepted_delete h
  obtain ⟨-, rfl⟩ := (Table.find?_eq_some_iff d.table.nodup_id).1 hrole
  obtain ⟨htable, haccounts, hchildren⟩ := deleteRole_eq_some hdelete
  obtain ⟨hbelow, hnot⟩ := below_of_canManage hceil hrole hmanage
  have hfind : ∀ i, d'.table.findById i =
      if i = role.id then none else d.table.findById i := fun i => by
    rw [htable, findById_remove]
  refine .of_change hnot (fun i hi => ?_) (fun id => ?_) (fun _ => hbelow) fun i hi habove => ?_
  · rw [SameRow, hfind, if_neg hi, htable]
    exact ⟨rfl, update_of_ne hi _ _⟩
  · rw [haccounts, hasRole_dropRole]
    exact and_iff_left_of_imp fun hhas heq => hnot (heq ▸ hhas)
  · -- No role is below the deleted one.
    rcases Relation.ReflTransGen.cases_tail habove with heq | ⟨child, -, hchild⟩
    · rw [hfind, if_pos heq.symm] at hi
      exact absurd rfl hi
    · obtain ⟨_, hrow, hp⟩ := bind_eq_some_iff.1 hchild
      have hmem := mem_childrenOf.2 ⟨mem_of_find?_eq_some hrow, hp⟩
      rw [hchildren] at hmem
      cases hmem

theorem confines_apply {form : ApplyPermissionsForm}
    (h : Accepted collate d ⟨user, .apply id form⟩ d') : Confines user d d' := by
  obtain ⟨_, _, hrole, hmanage, hgrant⟩ := accepted_apply h
  obtain ⟨-, rfl⟩ := (Table.find?_eq_some_iff d.table.nodup_id).1 hrole
  obtain ⟨hroles, haccounts, hgrants⟩ := setPermissions_eq_some hgrant
  obtain ⟨hbelow, hnot⟩ := below_of_canManage hceil hrole hmanage
  refine .of_move hnot (fun i hi => ⟨findById_congr hroles i, hgrants i hi⟩) haccounts
    (fun _ => hbelow) ?_
  obtain ⟨own, hown, habove⟩ := hbelow
  refine ⟨own, hown, ?_⟩
  rwa [RoleTable.Above, parentOf_congr hroles]

omit hceil in
private theorem confines_changeRole {form : ChangeRoleForm}
    (h : Accepted collate d ⟨user, .changeRole id form⟩ d') : Confines user d d' := by
  obtain ⟨hne, hassign⟩ := accepted_changeRole h
  obtain ⟨htable, haccounts⟩ := setUserRole_eq_some hassign
  have hroles : rolesForUser d'.table d'.accounts user =
      rolesForUser d.table d.accounts user := by
    rw [htable]
    refine rolesForUser_congr ?_
    rw [← some.inj haccounts, Accounts.findById_modify_of_ne _ _ hne.symm]
  refine ⟨fun role => hroles ▸ Iff.rfl, fun i _ _ => htable ▸ ⟨rfl, rfl⟩, fun i hi hbelow => ?_⟩
  obtain ⟨own, hown, habove⟩ := hbelow (htable ▸ hi)
  exact ⟨own, hroles ▸ hown, htable ▸ habove⟩

/-- **What an accepted request of a user with a ceiling changes.** -/
theorem confines_of_accepted {action : Action} (h : Accepted collate d ⟨user, action⟩ d') :
    Confines user d d' := by
  cases action with
  | create => exact confines_create hceil h
  | edit => exact confines_edit hceil h
  | delete => exact confines_delete hceil h
  | apply => exact confines_apply hceil h
  | changeRole => exact confines_changeRole h

end Cases

end Accepted

/-! ## Any number of requests -/

/-- The roles the user can assign have no further permissions than the user had at the start, nor
has the user, and roles outside are as they were. -/
structure Delegated (user : ℕ) (d₀ d : Directory) : Prop where
  assignable : ∀ role ∈ Rbac.assignableRoles d.table d.accounts user,
    d.table.effectivePermissionsForRole role.id ⊆
      Rbac.effectivePermissions d₀.table d₀.accounts user
  own : Rbac.effectivePermissions d.table d.accounts user ⊆
    Rbac.effectivePermissions d₀.table d₀.accounts user
  outside : ∀ role ∈ d₀.table.roles, ¬ Below d₀ user role.id →
    d.table.findById role.id = some role ∧
      d.table.grants role.id = d₀.table.grants role.id ∧
        d.table.effectivePermissionsForRole role.id =
          d₀.table.effectivePermissionsForRole role.id

/-- What the user was given at the start bounds what they have, and the roles outside are the same
and still outside. -/
private structure Kept (user : ℕ) (d₀ d : Directory) : Prop where
  shallow : d.table.Shallow
  own : Rbac.effectivePermissions d.table d.accounts user ⊆
    Rbac.effectivePermissions d₀.table d₀.accounts user
  outside : ∀ role ∈ d₀.table.roles, ¬ Below d₀ user role.id → ¬ Below d user role.id ∧
    d.table.findById role.id = some role ∧
      d.table.grants role.id = d₀.table.grants role.id ∧
        d.table.effectivePermissionsForRole role.id =
          d₀.table.effectivePermissionsForRole role.id

private theorem Kept.next {collate : String → String → Bool} {user : ℕ} {d₀ d : Directory}
    {req : Request} (h : Kept user d₀ d)
    (hceil : ¬ hasNoCeiling d₀.table d₀.accounts user) (huser : req.user = user)
    (hfits : FitsIfAccepted collate maxAncestorWalk d req) : Kept user d₀ (step collate d req) := by
  rcases accepted_or_step_eq collate d req with hreq | hsame
  · obtain ⟨user', action⟩ := req
    obtain rfl : user' = user := huser
    have hceil' : ¬ hasNoCeiling d.table d.accounts user' :=
      fun hall => hceil fun p hp => h.own (hall p hp)
    have hc := confines_of_accepted hceil' hreq
    have hshallow :=
      (Accepted.within_iff (by decide) le_rfl h.shallow hreq).2 (hfits.of_accepted hreq)
    refine ⟨hshallow, (hc.effectivePermissions_subset hshallow).trans h.own, ?_⟩
    intro role hrole hout
    obtain ⟨hout', hrow, hgrants, heff⟩ := h.outside role hrole hout
    have hexists : d.table.findById role.id ≠ none := hrow ▸ some_ne_none role
    obtain ⟨hrow', hgrants', heff'⟩ := hc.outside hexists hout'
    exact ⟨hc.not_below hexists hout', hrow'.trans hrow, hgrants'.trans hgrants,
      heff'.trans heff⟩
  · rwa [hsame]

/-- A user with a ceiling, whose accepted edits keep the roles they move within the walk, does not
go beyond what their roles gave them. -/
theorem delegated_of_fits (collate : String → String → Bool) {user : ℕ} {d₀ d : Directory}
    (h₀ : d₀.table.Shallow) (hceil : ¬ hasNoCeiling d₀.table d₀.accounts user)
    (h : Machine.Reached (step collate) (fun d req => req.user = user ∧
      FitsIfAccepted collate maxAncestorWalk d req) d₀ d) : Delegated user d₀ d := by
  have hkept : Kept user d₀ d := by
    refine h.inv (I := Kept user d₀) ⟨h₀, Finset.Subset.refl _, fun role hrole hout => ?_⟩
      fun d req hd hreq => hd.next hceil hreq.1 hreq.2
    exact ⟨hout, findById_of_mem hrole, rfl, rfl⟩
  refine ⟨fun role hrole => ?_, hkept.own, fun role hrole hout => ?_⟩
  · exact (effective_subset_of_assignable hkept.shallow hrole).trans hkept.own
  · exact (hkept.outside role hrole hout).2

/-- A role that manages roles and users, a role under it, and a chain under it as deep as the walk,
with a permission more. -/
def deepForest : Directory where
  table :=
    { roles := ⟨1, String.ofList (chainName 1), none⟩ ::
        ⟨2, String.ofList (chainName 2), some 1⟩ :: ⟨3, String.ofList (chainName 3), some 1⟩ ::
          (range 18).map fun i =>
            ⟨i + 4, String.ofList (chainName (i + 4)), some (i + 3)⟩
      grants := fun id => if id = 1 then {.rolesManage, .usersModify} else {.settingsManage}
      nodup_id := by decide }
  system := fun _ => false
  accounts := ⟨[⟨0, [], [], none, false, [1]⟩], by decide⟩
  closed := by decide
  assigned := by decide

set_option maxRecDepth 20000 in
theorem delegated_of_fits_move :
    ((moveTo 2 (chainName 2) 3).alone byName deepForest).1.isOk ∧
      Delegated 0 deepForest (step byName deepForest (moveTo 2 (chainName 2) 3)) :=
  ⟨by decide, delegated_of_fits byName (by decide) (by decide) (.next .start (by decide))⟩

set_option maxRecDepth 20000 in
/-- The chain is moved under the other role. Its last role is out of reach of the administrator's
own, who can assign it. -/
theorem not_delegated_of_move :
    deepForest.table.Shallow ∧ ¬ hasNoCeiling deepForest.table deepForest.accounts 0 ∧
    {.rolesManage, .usersModify} ⊆
      Rbac.effectivePermissions deepForest.table deepForest.accounts 0 ∧
    ∃ d, Machine.Reached (step byName)
      (fun d req => req.user = 0 ∧ (req.alone byName d).1.isOk) deepForest d ∧
        ¬ Delegated 0 deepForest d := by
  have hmove : Machine.allows (step byName)
      (fun d req => req.user = 0 ∧ (req.alone byName d).1.isOk) deepForest
      [moveTo 3 (chainName 3) 2] := by decide
  have hlast : let d := step byName deepForest (moveTo 3 (chainName 3) 2)
      ⟨21, String.ofList (chainName 21), some 20⟩ ∈
          Rbac.assignableRoles d.table d.accounts 0 ∧
        .settingsManage ∈ d.table.effectivePermissionsForRole 21 := by decide
  refine ⟨by decide, by decide, by decide, _, Machine.reached_of_allows hmove, fun h => ?_⟩
  have hgained := h.assignable _ hlast.1 hlast.2
  exact absurd hgained (by decide)

end RolePages

end Abyssal.Rbac
