import Abyssal.Rbac.RoleChecks

/-!
# The hierarchy of roles

Creating a role and moving one ask for the depth of the parent; but a role that is moved takes the
roles below it along, and nothing asks how far down they reach. The checks are queries that come
before the write, so two edits at the same time can each put a role under the other.

## Main results

* `nested_of_fits`: the depth is kept.
* `cascades_of_fits`: grants stay below.
-/

namespace Abyssal.Rbac

namespace RolePages

open Resumption Resumption.Handler Option

/-- The roles form a forest at most `maxRoleDepth` deep. -/
def Nested (d : Directory) : Prop :=
  d.table.Acyclic ∧ ∀ role ∈ d.table.roles, d.table.depthOf role.id ≤ maxRoleDepth

/-- A role that the request moves fits under the new parent, with all roles below it. -/
def Request.Fits (n : ℕ) (d : Directory) (req : Request) : Prop :=
  match req.action with
  | .edit id form => d.table.Fits n id form.parent.target
  | _ => True

instance (n : ℕ) (d : Directory) (req : Request) : Decidable (req.Fits n d) :=
  match req with
  | ⟨_, .edit id form⟩ => inferInstanceAs (Decidable (d.table.Fits n id form.parent.target))
  | ⟨_, .create ..⟩ => inferInstanceAs (Decidable True)
  | ⟨_, .delete ..⟩ => inferInstanceAs (Decidable True)
  | ⟨_, .apply ..⟩ => inferInstanceAs (Decidable True)
  | ⟨_, .changeRole ..⟩ => inferInstanceAs (Decidable True)

/-- A new role's parent is not too deep, and a role that is moved fits under a parent that is not
below it. -/
def Op.Keeps (d : Directory) : Op → Prop
  | insertRole role => ∀ p ∈ role.parentRoleId, d.table.depthOf p + 1 ≤ maxRoleDepth
  | updateRole role => d.table.findById role.id ≠ none →
      d.table.Room maxRoleDepth role.id role.parentRoleId
  | _ => True

variable {collate : String → String → Bool} {d d' : Directory}

open RoleTable

theorem nested_iff : Nested d ↔ d.table.Within maxRoleDepth :=
  (within_iff (by decide)).symm

/-! ## Statements -/

section Statements

variable {n : ℕ} {t t' : RoleTable}

theorem findById_congr (h : t'.roles = t.roles) (id : ℕ) : t'.findById id = t.findById id := by
  rw [findById, h]
  rfl

theorem parentOf_congr (h : t'.roles = t.roles) : t'.parentOf = t.parentOf := by
  ext1 id
  rw [parentOf, findById_congr h]
  rfl

private theorem within_congr (h : t'.roles = t.roles) : t'.Within n ↔ t.Within n := by
  rw [Within, Within, h, parentOf_congr h]

theorem ends_congr (h : t'.roles = t.roles) : t'.Ends ↔ t.Ends := by
  rw [Ends, Ends, h, parentOf_congr h]

open Directory

theorem within_setPermissions {id : ℕ} {permissions : Finset Permission}
    (h : d.setPermissions id permissions = some d') : d'.table.Within n ↔ d.table.Within n :=
  within_congr (setPermissions_eq_some h).1

theorem Op.nested_perform_iff (h : Nested d) {op : Op} {answer : op.Answer}
    (hop : op.perform collate d = some (d', answer)) : Nested d' ↔ op.Keeps d := by
  have hwithin := nested_iff.1 h
  rw [nested_iff]
  cases op with
  | insertRole =>
    obtain ⟨hid, htable, -, hp⟩ := insertRole_eq_some (of_perform_eq_some hop)
    rw [htable, within_insert_iff d.closed hid hp hwithin (by decide)]
    exact and_iff_right (by decide)
  | updateRole role =>
    have hwrite := of_perform_eq_some hop
    by_cases hid : d.table.findById role.id = none
    · rw [Directory.updateRole, dif_pos hid] at hwrite
      cases hwrite
      exact iff_of_true hwithin fun hne => absurd hid hne
    · obtain ⟨htable, -, hp⟩ := updateRole_eq_some hwrite hid
      rw [htable, within_replace_iff hwithin (by decide) hid hp]
      exact ⟨fun hroom _ => hroom, fun hroom => hroom hid⟩
  | deleteRole id =>
    rw [(deleteRole_eq_some (of_perform_eq_some hop)).1]
    exact iff_of_true (hwithin.remove id) trivial
  | setPermissions =>
    rw [within_setPermissions (of_perform_eq_some hop)]
    exact iff_of_true hwithin trivial
  | setUserRole =>
    rw [(setUserRole_eq_some (of_perform_eq_some hop)).1]
    exact iff_of_true hwithin trivial
  | findById | findByName | list | childrenOf | rolesForUser | permissionsForRole | userCount
  | findUser =>
    cases hop
    exact iff_of_true hwithin trivial

end Statements

/-! ## Requests by themselves -/

section Alone

variable {n : ℕ} {req : Request}

private theorem not_mem_ancestorChain_target {user id : ℕ} {role : Role} {parent : Option ℕ}
    (h : d.table.Ends) (hrole : d.table.findById id = some role)
    (hmove : parent ≠ role.parentRoleId → MayMove d user id parent) :
    ∀ p ∈ parent, id ∉ d.table.ancestorChain p := by
  intro p hp
  obtain rfl : parent = some p := hp
  by_cases hsame : some p = role.parentRoleId
  · have hparent := (parentOf_of_findById hrole).trans hsame.symm
    obtain ⟨_, hm⟩ := ends_iff_findById.1 h id (hrole ▸ some_ne_none role)
    exact hm.not_mem_walk_parent hparent
  · exact (hmove hsame).1

theorem Accepted.ends_and_within_iff (hreq : Accepted collate d req d') (h : d.table.Ends) :
    d'.table.Ends ∧ ∀ n, maxRoleDepth ≤ n → n ≤ maxAncestorWalk → d.table.Within n →
      (d'.table.Within n ↔ req.Fits n d) := by
  obtain ⟨_, action⟩ := req
  cases action with
  | create _ form =>
    obtain ⟨hcreate, name, _, hinsert, hgrant⟩ := accepted_create hreq
    obtain ⟨hid, htable, -, hp⟩ := Directory.insertRole_eq_some hinsert
    simp only [ends_congr (Directory.setPermissions_eq_some hgrant).1,
      within_setPermissions hgrant, htable]
    refine ⟨.insert d.closed hid hp h, fun n hlow hhigh hwithin => ?_⟩
    rw [within_insert_iff d.closed hid hp hwithin hhigh]
    refine iff_of_true ⟨le_trans (by decide) hlow, fun p hparent => ?_⟩ trivial
    rw [show form.parent.target = some p from hparent] at hcreate
    exact hcreate.2.trans hlow
  | edit id form =>
    obtain ⟨role, _, hrole, -, hmove, hupdate⟩ := accepted_edit hreq
    have hid : d.table.findById id ≠ none := hrole ▸ some_ne_none role
    obtain ⟨htable, -, hp⟩ := Directory.updateRole_eq_some hupdate hid
    rw [htable]
    refine ⟨?_, fun n _ hhigh hwithin => ?_⟩
    · by_cases hsame : form.parent.target = role.parentRoleId
      · exact h.replace_of_eq hid (hsame.trans (parentOf_of_findById hrole).symm)
      · refine h.replace hid fun p hparent => ?_
        have hmove := hmove hsame
        rw [show form.parent.target = some p from hparent] at hmove
        exact ⟨hmove.1, le_trans (Nat.le_of_succ_le hmove.2.2) (by decide)⟩
    · rw [within_replace_iff hwithin hhigh hid hp]
      exact and_iff_right (not_mem_ancestorChain_target h hrole hmove)
  | delete id =>
    obtain ⟨-, -, -, hdelete⟩ := accepted_delete hreq
    rw [(Directory.deleteRole_eq_some hdelete).1]
    exact ⟨h.remove id, fun n _ _ hwithin => iff_of_true (hwithin.remove id) trivial⟩
  | apply =>
    obtain ⟨-, _, -, -, hgrant⟩ := accepted_apply hreq
    simp only [ends_congr (Directory.setPermissions_eq_some hgrant).1,
      within_setPermissions hgrant]
    exact ⟨h, fun n _ _ hwithin => iff_of_true hwithin trivial⟩
  | changeRole =>
    rw [(Directory.setUserRole_eq_some (accepted_changeRole hreq).2).1]
    exact ⟨h, fun n _ _ hwithin => iff_of_true hwithin trivial⟩

theorem Accepted.within_iff (hlow : maxRoleDepth ≤ n) (hhigh : n ≤ maxAncestorWalk)
    (h : d.table.Within n) (hreq : Accepted collate d req d') : d'.table.Within n ↔ req.Fits n d :=
  (hreq.ends_and_within_iff h.ends).2 n hlow hhigh h

variable (collate)

theorem accepted_or_step_eq (d : Directory) (req : Request) :
    Accepted collate d req (step collate d req) ∨ step collate d req = d := by
  rw [Accepted, step]
  rcases req.alone collate d with ⟨e | _, d'⟩
  · exact .inr rfl
  · exact .inl rfl

/-- Of the requests made one after the other, those that are accepted fit. -/
def FitsIfAccepted (n : ℕ) (d : Directory) (req : Request) : Prop :=
  (req.alone collate d).1.isOk → req.Fits n d

variable {collate}

instance (n : ℕ) (d : Directory) (req : Request) : Decidable (FitsIfAccepted collate n d req) :=
  inferInstanceAs (Decidable (_ → _))

theorem FitsIfAccepted.of_accepted (h : FitsIfAccepted collate n d req)
    (hreq : Accepted collate d req d') : req.Fits n d :=
  h (by rw [show req.alone collate d = (.ok (), d') from hreq]; rfl)

variable {d₀ : Directory}

theorem within_of_reached (hlow : maxRoleDepth ≤ n) (hhigh : n ≤ maxAncestorWalk)
    (h₀ : d₀.table.Within n)
    (h : Machine.Reached (step collate) (FitsIfAccepted collate n) d₀ d) : d.table.Within n := by
  refine h.inv (I := fun d => d.table.Within n) h₀ fun d req hd hfits => ?_
  rcases accepted_or_step_eq collate d req with hreq | hsame
  · exact (Accepted.within_iff hlow hhigh hd hreq).2 (hfits.of_accepted hreq)
  · rwa [hsame]

theorem ends_of_reached {ok : Directory → Request → Prop}
    (h₀ : d₀.table.Ends) (h : Machine.Reached (step collate) ok d₀ d) : d.table.Ends := by
  refine h.inv (I := fun d => d.table.Ends) h₀ fun d req hd _ => ?_
  rcases accepted_or_step_eq collate d req with hreq | hsame
  · exact (hreq.ends_and_within_iff hd).1
  · rwa [hsame]

end Alone

/-! ## Interleaved requests -/

/-- What a thread's statement does, with the outcome that the environment chooses. -/
def exec (collate : String → String → Bool) {ι : Type} (_ : ι) (op : Op) (c : Outcome)
    (d : Directory) : Option (Directory × Option op.Answer) :=
  some (respond collate op c d)

private theorem nested_of_reach {ι : Type} [DecidableEq ι] {d₀ : Directory}
    {P : Pool ι Request Directory Op (fun op => Option op.Answer) (Except Failure Unit)}
    (h₀ : Nested d₀)
    (h : Reach Request.code (exec collate) (fun _ op _ d => op.Keeps d) (.init d₀) P) :
    Nested P.shared := by
  refine inv_of_exec (I := Nested) ?_ h₀ h
  intro i op c d d' r hd hkeeps hexec
  obtain rfl : (respond collate op c d).1 = d' := congrArg Prod.fst (some.inj hexec)
  rcases settle_fst_cases c d (op.perform collate d) with hsame | ⟨answer, hop⟩
  · rwa [respond, hsame]
  · exact (Op.nested_perform_iff hd hop).2 hkeeps

/-! ## Main results -/

/-- A request by itself makes no cycle and keeps the forest exactly if the role it moves fits; a
statement, if what was checked holds where it is executed too. The same for runs, interleaved or
not. -/
theorem nested_of_fits (collate : String → String → Bool) :
    (∀ d req d', Nested d → Accepted collate d req d' →
      (Nested d' ↔ req.Fits maxRoleDepth d)) ∧
    (∀ ok d₀ d, Nested d₀ → Machine.Reached (step collate) ok d₀ d → d.table.Acyclic) ∧
    (∀ d₀ d, Nested d₀ →
      Machine.Reached (step collate) (FitsIfAccepted collate maxRoleDepth) d₀ d → Nested d) ∧
    (∀ d (op : Op) d' (answer : op.Answer), Nested d → op.perform collate d = some (d', answer) →
      (Nested d' ↔ op.Keeps d)) ∧
    ∀ (ι : Type) [DecidableEq ι] d₀
      (P : Pool ι Request Directory Op (fun op => Option op.Answer) (Except Failure Unit)),
      Nested d₀ → Reach Request.code (exec collate) (fun _ op _ d => op.Keeps d) (.init d₀) P →
        Nested P.shared := by
  refine ⟨fun d req d' hd hreq => ?_, fun ok d₀ d h₀ h => ?_, fun d₀ d h₀ h => ?_,
    fun d op d' answer hd hop => Op.nested_perform_iff hd hop,
    fun ι _ d₀ P h₀ h => nested_of_reach h₀ h⟩
  · rw [nested_iff] at hd ⊢
    exact Accepted.within_iff le_rfl (by decide) hd hreq
  · exact (ends_of_reached (nested_iff.1 h₀).ends h).acyclic
  · rw [nested_iff] at h₀ ⊢
    exact within_of_reached le_rfl (by decide) h₀ h

def byName (a b : String) : Bool := decide (a ≤ b)

def rootForest : Directory where
  table :=
    { roles := [⟨1, "A", none⟩, ⟨2, "B", none⟩, ⟨0, "Super Admin", none⟩, ⟨3, "X", none⟩,
        ⟨4, "Y", none⟩]
      grants := fun id => if id = 0 then Permission.all.toFinset else ∅
      nodup_id := by decide }
  system := fun id => id = 0
  accounts := ⟨[⟨0, [], [], none, false, [0]⟩], by decide⟩
  closed := by decide
  assigned := by decide

def moveTo (id : ℕ) (name : Text) (parent : ℕ) : Request :=
  ⟨0, .edit id ⟨true, name, [], .given parent⟩⟩

set_option maxRecDepth 2000 in
theorem nested_of_fits_move : Nested (step byName rootForest (moveTo 2 ['B'] 1)) :=
  (nested_of_fits byName).2.2.1 rootForest _ (nested_iff.2 (by decide)) (.next .start (by decide))

set_option maxRecDepth 4000 in
/-- The last of three edits takes a role to the fourth level. Two at the same time put each of two
roles under the other. -/
theorem not_nested_of_moves :
    (∀ role ∈ rootForest.table.roles, role.parentRoleId = none) ∧
    (∃ d, Machine.Reached (step byName) (fun d req => (req.alone byName d).1.isOk)
      rootForest d ∧ ¬ Nested d) ∧
    ∃ P : Pool (Fin 2) Request Directory Op (fun op => Option op.Answer) (Except Failure Unit),
      Reach Request.code (exec byName) (fun _ _ _ _ => True) (.init rootForest) P ∧
        ¬ P.shared.table.Acyclic := by
  refine ⟨by decide, ?_, ?_⟩
  · have hmoves : Machine.allows (step byName) (fun d req => (req.alone byName d).1.isOk)
        rootForest [moveTo 2 ['B'] 1, moveTo 4 ['Y'] 3, moveTo 1 ['A'] 4] := by decide
    refine ⟨_, Machine.reached_of_allows hmoves, ?_⟩
    rw [nested_iff]
    decide
  · -- Both make their eight queries before either writes.
    have hrun : (fires Request.code (exec byName) (fun _ _ _ _ => True)
        (.init rootForest : Pool (Fin 2) Request Directory Op _ _)
        ([.start 0 (moveTo 1 ['A'] 2), .start 1 (moveTo 2 ['B'] 1)] ++
          List.replicate 8 (.run 0 .done) ++ List.replicate 8 (.run 1 .done) ++
          [.run 0 .done, .run 1 .done])).any (fun P =>
            P.shared.table.parentOf 1 = some 2 ∧ P.shared.table.parentOf 2 = some 1) := by decide
    obtain ⟨P, hreach, hfirst, hsecond⟩ := exists_reach_of_fires _ hrun
    exact ⟨P, hreach, fun hacyclic => hacyclic 1 (.tail (.single hfirst) hsecond)⟩

end RolePages

/-!
## Permissions cascade

Whatever a role loses, all roles below it are meant to lose. The computation visits at most
`maxAncestorWalk` roles on the way up, and accepted edits can nest roles deeper than that, because
moving a role does not ask how many levels it takes along.
-/

namespace RoleTable

variable (t : RoleTable)

/-- Effective permissions are among the grants and the parent's effective permissions, and taking
one from a role takes it from every role below. -/
def Cascades : Prop :=
  (∀ role ∈ t.roles, t.effectivePermissionsForRole role.id ⊆ t.grants role.id ∧
    ∀ p ∈ role.parentRoleId,
      t.effectivePermissionsForRole role.id ⊆ t.effectivePermissionsForRole p) ∧
  ∀ root permissions, ∀ p ∉ permissions, ∀ role ∈ t.roles, t.Above root role.id →
    p ∉ (t.setGrants root permissions).effectivePermissionsForRole role.id

variable {t}

private theorem effective_subset_grants (id : ℕ) : t.effectivePermissionsForRole id ⊆ t.grants id :=
  fun _ hp => mem_effective.1 hp id List.mem_cons_self

namespace Shallow

variable {role : Role} (h : t.Shallow) (hrole : role ∈ t.roles)
include h hrole

theorem not_mem_effective_of_above {root : ℕ} {permissions : Finset Permission} {x : Permission}
    (hx : x ∉ permissions) (habove : t.Above root role.id) :
    x ∉ (t.setGrants root permissions).effectivePermissionsForRole role.id := by
  intro hmem
  rw [mem_effective] at hmem
  have hgrant := hmem root ((h role hrole).mem_walk_of_above habove)
  rw [grants_setGrants_self] at hgrant
  exact hx hgrant

omit hrole in
/-- **In a table within the walk, permissions cascade.** -/
theorem cascades : t.Cascades := by
  refine ⟨fun role hrole => ⟨effective_subset_grants role.id, fun p hp => ?_⟩, ?_⟩
  · have hparent : t.parentOf role.id = some p := by rwa [parentOf, findById_of_mem hrole]
    exact h.effective_subset hrole (.of_parent hparent)
  · rintro root permissions x hx role hrole habove
    exact h.not_mem_effective_of_above hrole hx habove

end Shallow

end RoleTable

namespace RolePages

variable (collate : String → String → Bool)

/-- Permissions cascade in every table that requests reach, if the roles that accepted edits move
stay within the walk, with all below them. -/
theorem cascades_of_fits :
    (∀ d₀ d, d₀.table.Shallow →
      Machine.Reached (step collate) (FitsIfAccepted collate maxAncestorWalk) d₀ d →
        d.table.Cascades) ∧
    ∀ d req d', d.table.Shallow → Accepted collate d req d' →
      (d'.table.Shallow ↔ req.Fits maxAncestorWalk d) := by
  constructor
  · intro d₀ d h₀ h
    have hshallow : d.table.Shallow := within_of_reached (by decide) le_rfl h₀ h
    exact hshallow.cascades
  · intro d req d' hd hreq
    exact Accepted.within_iff (by decide) le_rfl hd hreq

def chainName (i : ℕ) : Text := [Char.ofNat (96 + i)]

/-- A built-in role that may do everything, and one custom role more than the walk visits, none
under another. -/
def flatForest : Directory where
  table :=
    { roles := ((List.range 21).map fun i =>
        ⟨i + 1, String.ofList (chainName (i + 1)), none⟩) ++ [⟨0, "~", none⟩]
      grants := fun id =>
        if id = 0 then Permission.all.toFinset else if id = 1 then ∅ else {.usersView}
      nodup_id := by decide }
  system := fun id => id = 0
  accounts := rootForest.accounts
  closed := by decide
  assigned := by decide

/-- Each custom role is moved under the one before it, the last first. -/
def nestAll : List Request :=
  (List.range 20).map fun k => moveTo (21 - k) (chainName (21 - k)) (20 - k)

set_option maxRecDepth 4000 in
theorem cascades_of_fits_move :
    (step byName flatForest (moveTo 2 (chainName 2) 1)).table.Cascades :=
  (cascades_of_fits byName).1 flatForest _ (by decide) (.next .start (by decide))

set_option maxRecDepth 20000 in
/-- Twenty accepted edits nest twenty-one roles, and the first is out of reach of the last. -/
theorem not_cascades_of_moves :
    (∀ role ∈ flatForest.table.roles, role.parentRoleId = none) ∧
    ∃ d, Machine.Reached (step byName) (fun d req => (req.alone byName d).1.isOk)
      flatForest d ∧ ¬ d.table.Cascades := by
  have hmoves : Machine.allows (step byName) (fun d req => (req.alone byName d).1.isOk)
      flatForest nestAll := by decide
  have hlast : let t := (nestAll.foldl (step byName) flatForest).table
      ⟨21, String.ofList (chainName 21), some 20⟩ ∈ t.roles ∧
        .usersView ∈ t.effectivePermissionsForRole 21 ∧
        .usersView ∉ t.effectivePermissionsForRole 20 := by decide
  refine ⟨by decide, _, Machine.reached_of_allows hmoves, fun hcascades => ?_⟩
  exact hlast.2.2 ((hcascades.1 _ hlast.1).2 20 rfl hlast.2.1)

end RolePages

end Abyssal.Rbac
