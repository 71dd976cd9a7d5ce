import Abyssal.Check.Ensure
import Abyssal.Machine.Guarded
import Abyssal.Rbac.Accounts

/-!
# User management by a delegated administrator

Each handler makes all its checks first, so it is modelled by its *plan*: a refusal, or the list of
statements it goes on to execute. How many take effect is up to the database. Whoever sets an
account's password or email address can log in as the account, and the state records the accounts
for which the administrator has. Editing and resetting do not check the role of the account.

## Main results

* `confined_of_scoped`: no account above is reached.
-/

namespace Abyssal.Rbac

open Except Text Permission

/-! ## The handlers -/

inductive Refusal where
  | forbidden
  | notFound
  | validation (message : String)
  | page (error : Option String)

def csrfMessage : String :=
  "Your session expired or this form was submitted from an untrusted origin. Please try again."

def missingFrom (password : Text) : List String :=
  (if password.length < 15 then ["at least 15 characters"] else []) ++
  (if password.any isAsciiUppercase then [] else ["an uppercase letter"]) ++
  (if password.any isAsciiLowercase then [] else ["a lowercase letter"]) ++
  (if password.any isAsciiDigit then [] else ["a number"]) ++
  (if password.any isAsciiPunctuation then [] else ["a special character"])

def validateStrength (password : Text) : Option String :=
  if missingFrom password = [] then none
  else some ("Password must contain " ++ ", ".intercalate (missingFrom password) ++ ".")

structure CreateUserForm where
  csrfValid : Bool
  intent : String
  username : Text
  email : Text
  password : Text
  roleId : ℕ

structure EditUserForm where
  csrfValid : Bool
  username : Text
  email : Text

structure ChangeRoleForm where
  csrfValid : Bool
  roleId : ℕ

structure ResetPasswordForm where
  csrfValid : Bool
  intent : String
  password : Text

variable (t : RoleTable) (a : Accounts) (admin : ℕ)

def createPlan (newId : ℕ) (form : CreateUserForm) : Except Refusal (List Write) := do
  ensure (usersCreate ∈ effectivePermissions t a admin) .forbidden
  ensure form.csrfValid (.validation csrfMessage)
  ensure (form.intent ≠ "generate") (.page none)
  ensure (∃ role ∈ assignableRoles t a admin, role.id = form.roleId) .forbidden
  ensure (validateStrength form.password = none) (.page (validateStrength form.password))
  return [.create ⟨newId, form.username, form.email, some form.password, true, []⟩,
    .setUserRole newId form.roleId]

def editPlan (id : ℕ) (form : EditUserForm) : Except Refusal (List Write) := do
  ensure (usersModify ∈ effectivePermissions t a admin) .forbidden
  ensure form.csrfValid (.validation csrfMessage)
  ensure (a.findById id ≠ none) .notFound
  let username := trim form.username
  let email := trim form.email
  ensure (username ≠ [] ∧ byteLength username ≤ 64)
    (.page (some "Username must be 1-64 characters."))
  ensure (email ≠ [] ∧ '@' ∈ email)
    (.page (some "That doesn't look like a valid email address."))
  return [.updateProfile id username email]

def changeRolePlan (id : ℕ) (form : ChangeRoleForm) : Except Refusal (List Write) := do
  ensure (usersModify ∈ effectivePermissions t a admin) .forbidden
  ensure form.csrfValid (.validation csrfMessage)
  ensure (id ≠ admin) .forbidden
  ensure (a.findById id ≠ none) .notFound
  let assignable := assignableRoles t a admin
  ensure ((hasNoCeiling t a admin ∨ ∃ previous ∈ (rolesForUser t a id).head?,
      ∃ role ∈ assignable, role.id = previous.id) ∧
    ∃ role ∈ assignable, role.id = form.roleId) .forbidden
  return [.setUserRole id form.roleId]

def resetPasswordPlan (id : ℕ) (form : ResetPasswordForm) : Except Refusal (List Write) := do
  ensure (usersModify ∈ effectivePermissions t a admin) .forbidden
  ensure form.csrfValid (.validation csrfMessage)
  ensure (a.findById id ≠ none) .notFound
  ensure (form.intent ≠ "generate") (.page none)
  ensure (validateStrength form.password = none) (.page (validateStrength form.password))
  return [.updatePassword id form.password true]

inductive Request where
  | create (newId : ℕ) (form : CreateUserForm)
  | edit (id : ℕ) (form : EditUserForm)
  | changeRole (id : ℕ) (form : ChangeRoleForm)
  | resetPassword (id : ℕ) (form : ResetPasswordForm)

def Request.plan : Request → Except Refusal (List Write)
  | .create newId form => createPlan t a admin newId form
  | .edit id form => editPlan t a admin id form
  | .changeRole id form => changeRolePlan t a admin id form
  | .resetPassword id form => resetPasswordPlan t a admin id form

def Request.target : Request → Option ℕ
  | .edit id _ => some id
  | .resetPassword id _ => some id
  | .create .. | .changeRole .. => none

/-! ## Runs -/

def Write.opens : Write → Option ℕ
  | .create user => some user.id
  | .updateProfile id _ _ => some id
  | .updatePassword id _ _ => some id
  | .setUserRole .. => none

/-- The accounts, and those among them whose password or email address the administrator has
set. -/
structure State where
  accounts : Accounts
  opened : List ℕ

/-- Statements one after the other, until one fails or `done` of them have taken effect. -/
def State.perform (s : State) : ℕ → List Write → State
  | 0, _ => s
  | _ + 1, [] => s
  | done + 1, w :: ws =>
    match s.accounts.write w with
    | none => s
    | some accounts => perform ⟨accounts, w.opens.toList ++ s.opened⟩ done ws

/-- A request of the administrator, and how many of its statements take effect. -/
structure Event where
  request : Request
  done : ℕ

def State.step (s : State) (e : Event) : State :=
  match e.request.plan t s.accounts admin with
  | .ok ws => s.perform e.done ws
  | .error _ => s

/-- No account that the administrator can log in as has a permission that the administrator
lacks. -/
def Confined (s : State) : Prop :=
  ∀ id ∈ s.opened,
    effectivePermissions t s.accounts id ⊆ effectivePermissions t s.accounts admin

instance (s : State) : Decidable (Confined t admin s) :=
  inferInstanceAs (Decidable (∀ id ∈ s.opened, _))

/-- The request is refused, unless its account is the administrator's own or in scope. -/
def RefusedUnlessInScope (req : Request) : Prop :=
  ∀ id ∈ req.target, id ≠ admin → (req.plan t a admin).isOk → InScope t a admin id

instance (req : Request) : Decidable (RefusedUnlessInScope t a admin req) :=
  inferInstanceAs (Decidable (∀ id ∈ req.target, _))

def Request.WellFormed : Request → Prop
  | .edit _ form => form.csrfValid ∧ (trim form.username ≠ [] ∧
      byteLength (trim form.username) ≤ 64) ∧
      (trim form.email ≠ [] ∧ '@' ∈ trim form.email)
  | .resetPassword _ form => form.csrfValid ∧ form.intent ≠ "generate" ∧
      validateStrength form.password = none
  | .create .. | .changeRole .. => True

instance (req : Request) : Decidable req.WellFormed :=
  match req with
  | .edit .. => inferInstanceAs (Decidable (_ ∧ (_ ∧ _) ∧ (_ ∧ _)))
  | .resetPassword .. => inferInstanceAs (Decidable (_ ∧ _ ∧ _))
  | .create .. => inferInstanceAs (Decidable True)
  | .changeRole .. => inferInstanceAs (Decidable True)

/-- A well-formed form for another account is sent only if the account is in scope. -/
def Scoped (req : Request) : Prop :=
  ∀ id ∈ req.target, id ≠ admin → usersModify ∈ effectivePermissions t a admin →
    a.findById id ≠ none → req.WellFormed → InScope t a admin id

instance (req : Request) : Decidable (Scoped t a admin req) :=
  inferInstanceAs (Decidable (∀ id ∈ req.target, _))

/-! ## What the plans promise -/

section Plans

variable {t a admin} {ws : List Write}

theorem createPlan_eq_ok {newId : ℕ} {form : CreateUserForm}
    (h : createPlan t a admin newId form = .ok ws) :
    usersCreate ∈ effectivePermissions t a admin ∧
      (∃ role ∈ assignableRoles t a admin, role.id = form.roleId) ∧
      ws = [.create ⟨newId, form.username, form.email, some form.password, true, []⟩,
        .setUserRole newId form.roleId] := by
  rw [createPlan] at h
  simp only [ensure_bind_eq_ok] at h
  obtain ⟨hperm, -, -, hrole, -, hws⟩ := h
  exact ⟨hperm, hrole, (ok.inj hws).symm⟩

variable {id : ℕ}

theorem changeRolePlan_eq_ok {form : ChangeRoleForm}
    (h : changeRolePlan t a admin id form = .ok ws) :
    id ≠ admin ∧ (∃ role ∈ assignableRoles t a admin, role.id = form.roleId) ∧
      ws = [.setUserRole id form.roleId] := by
  rw [changeRolePlan] at h
  simp only [ensure_bind_eq_ok] at h
  obtain ⟨-, -, hne, -, ⟨-, hrole⟩, hws⟩ := h
  exact ⟨hne, hrole, (ok.inj hws).symm⟩

variable {req : Request}

/-- A form for one account is a single statement, which opens that account. -/
theorem plan_eq_ok_of_target (h : id ∈ req.target) (hplan : req.plan t a admin = .ok ws) :
    ∃ w, ws = [w] ∧ (∀ other, ¬ w.assigns other) ∧ w.opens = req.target := by
  cases req with
  | create | changeRole => cases h
  | edit | resetPassword =>
    simp only [Request.plan, editPlan, resetPasswordPlan, ensure_bind_eq_ok] at hplan
    obtain ⟨-, -, -, -, -, hws⟩ := hplan
    exact ⟨_, (ok.inj hws).symm, fun _ hassigns => hassigns, rfl⟩

private theorem isOk_plan_iff (h : id ∈ req.target) :
    (req.plan t a admin).isOk ↔
      usersModify ∈ effectivePermissions t a admin ∧ a.findById id ≠ none ∧ req.WellFormed := by
  cases req with
  | create | changeRole => cases h
  | edit | resetPassword =>
    cases h
    simp only [Request.plan, editPlan, resetPasswordPlan, isOk_ensure_bind]
    constructor
    · rintro ⟨hperm, hcsrf, hfind, hfirst, hsecond, -⟩
      exact ⟨hperm, hfind, hcsrf, hfirst, hsecond⟩
    · rintro ⟨hperm, hfind, hcsrf, hfirst, hsecond⟩
      exact ⟨hperm, hcsrf, hfind, hfirst, hsecond, rfl⟩

theorem refusedUnlessInScope_iff : RefusedUnlessInScope t a admin req ↔ Scoped t a admin req := by
  refine forall₂_congr fun id hid => forall_congr' fun _ => ?_
  rw [isOk_plan_iff hid]
  exact ⟨fun h hperm hfind hform => h ⟨hperm, hfind, hform⟩,
    fun h hall => h hall.1 hall.2.1 hall.2.2⟩

end Plans

/-! ## Confinement -/

namespace Confined

variable {t admin} {s : State} {w : Write}

theorem write (h : Confined t admin s) {a' : Accounts}
    (hw : s.accounts.write w = some a') (hself : ¬ w.assigns admin)
    (hrole : ∀ id roleId, w = .setUserRole id roleId →
      t.effectivePermissionsForRole roleId ⊆ effectivePermissions t s.accounts admin)
    (hopen : ∀ id ∈ w.opens,
      effectivePermissions t s.accounts id ⊆ effectivePermissions t s.accounts admin) :
    Confined t admin ⟨a', w.opens.toList ++ s.opened⟩ := by
  intro id hid
  change effectivePermissions t a' id ⊆ effectivePermissions t a' admin
  rw [effectivePermissions_write hw hself]
  by_cases hassign : w.assigns id
  · cases w with
    | create => exact absurd hassign hself
    | updateProfile | updatePassword => exact hassign.elim
    | setUserRole id' =>
      obtain rfl : id' = id := hassign
      exact (effectivePermissions_setUserRole hw).trans (hrole _ _ rfl)
  · rw [effectivePermissions_write hw hassign]
    rcases List.mem_append.1 hid with hnew | hold
    · exact hopen id (Option.mem_toList.1 hnew)
    · exact h id hold

theorem perform_cons (h : Confined t admin s) {ws : List Write}
    (hnext : ∀ a', s.accounts.write w = some a' →
      ∀ done, Confined t admin (State.perform ⟨a', w.opens.toList ++ s.opened⟩ done ws))
    (done : ℕ) : Confined t admin (s.perform done (w :: ws)) := by
  cases done with
  | zero => exact h
  | succ done =>
    rw [State.perform]
    split
    · exact h
    · next a' hw => exact hnext a' hw done

theorem perform_nil (h : Confined t admin s) (done : ℕ) : Confined t admin (s.perform done []) := by
  cases done <;> exact h

variable {roleId : ℕ}

theorem perform_setUserRole (h : Confined t admin s) {id : ℕ} (hne : id ≠ admin)
    (hrole : t.effectivePermissionsForRole roleId ⊆ effectivePermissions t s.accounts admin)
    (done : ℕ) : Confined t admin (s.perform done [.setUserRole id roleId]) := by
  have hself : ¬ (Write.setUserRole id roleId).assigns admin := hne
  refine h.perform_cons (fun a' hw => perform_nil (h.write hw hself ?_ fun _ hid => nomatch hid))
    done
  intro id' roleId' heq
  cases heq
  exact hrole

theorem perform_create (h : Confined t admin s) {user : User}
    (huser : user.roleIds = []) (hfind : s.accounts.findById admin ≠ none)
    (hrole : t.effectivePermissionsForRole roleId ⊆ effectivePermissions t s.accounts admin)
    (done : ℕ) : Confined t admin (s.perform done [.create user, .setUserRole user.id roleId]) := by
  have hself : ∀ id, ¬ (Write.create user).assigns id := fun _ => not_not.2 huser
  refine h.perform_cons (fun a' hw => ?_) done
  -- the statement succeeded, so no account had the id before
  have hnone : s.accounts.findById user.id = none := by
    by_contra hsome
    rw [Accounts.write, dif_neg hsome] at hw
    exact Option.some_ne_none a' hw.symm
  have hconf : Confined t admin ⟨a', (Write.create user).opens.toList ++ s.opened⟩ := by
    refine h.write hw (hself admin) (fun _ _ heq => Write.noConfusion heq) fun id hid p hp => ?_
    cases hid
    exact absurd hnone (findById_ne_none_of_mem hp)
  refine hconf.perform_setUserRole (fun heq => hfind (heq ▸ hnone)) ?_
  rwa [effectivePermissions_write hw (hself admin)]

private theorem perform_open (h : Confined t admin s) (hassigns : ∀ id, ¬ w.assigns id)
    (hopen : ∀ id ∈ w.opens,
      effectivePermissions t s.accounts id ⊆ effectivePermissions t s.accounts admin)
    (done : ℕ) : Confined t admin (s.perform done [w]) := by
  refine h.perform_cons (fun a' hw => perform_nil (h.write hw (hassigns admin) ?_ hopen)) done
  rintro id roleId rfl
  exact absurd rfl (hassigns id)

theorem step (h : Confined t admin s) (ht : t.Shallow) {e : Event}
    (he : Scoped t s.accounts admin e.request) : Confined t admin (s.step t admin e) := by
  obtain ⟨req, done⟩ := e
  rw [State.step]
  split
  case h_2 => exact h
  case h_1 ws hplan =>
  -- an account that the plan opens is the administrator's own or in scope
  have hopen : ∀ id ∈ req.target,
      effectivePermissions t s.accounts id ⊆ effectivePermissions t s.accounts admin := by
    intro id hid
    by_cases hself : id = admin
    · rw [hself]
    · have hok : (req.plan t s.accounts admin).isOk := by
        rw [show req.plan t s.accounts admin = .ok ws from hplan]
        rfl
      exact (refusedUnlessInScope_iff.2 he id hid hself hok).effective_subset ht
  cases req with
  | create =>
    obtain ⟨hperm, ⟨role, hrole, hid⟩, rfl⟩ := createPlan_eq_ok hplan
    exact h.perform_create rfl (findById_ne_none_of_mem hperm)
      (hid ▸ effective_subset_of_assignable ht hrole) done
  | edit | resetPassword =>
    obtain ⟨w, rfl, hassigns, hopens⟩ := plan_eq_ok_of_target rfl hplan
    exact h.perform_open hassigns (hopens ▸ hopen) done
  | changeRole =>
    obtain ⟨hne, ⟨_, hrole, hid⟩, rfl⟩ := changeRolePlan_eq_ok hplan
    exact h.perform_setUserRole hne (hid ▸ effective_subset_of_assignable ht hrole) done

end Confined

/-- In a run of scoped requests, no account that the administrator can log in as has a permission
that the administrator lacks; and a request is refused, unless its account is in scope, exactly when
it is scoped. -/
theorem confined_of_scoped (ht : t.Shallow) (admin : ℕ) (a : Accounts) {s : State}
    (h : Machine.Reached (State.step t admin) (fun s e => Scoped t s.accounts admin e.request)
      ⟨a, []⟩ s) :
    Confined t admin s ∧
      ∀ req, RefusedUnlessInScope t s.accounts admin req ↔ Scoped t s.accounts admin req := by
  refine ⟨h.inv (fun id hid => absurd hid List.not_mem_nil) ?_, fun req => refusedUnlessInScope_iff⟩
  exact fun s e hs he => hs.step ht he

/-! ## A help desk -/

/-- Two root roles, one that may do everything and one that manages users, and a role for
trainees under the second. -/
def sampleRoles : RoleTable where
  roles := [⟨2, "Help Desk", none⟩, ⟨1, "Super Admin", none⟩, ⟨3, "Trainee", some 2⟩]
  grants := fun id =>
    if id = 1 then all.toFinset
    else if id = 2 then {.usersView, .usersCreate, .usersModify}
    else {.usersView}
  nodup_id := by decide

def sampleAccounts : Accounts where
  users :=
    [⟨1, "root", "root@example.org", none, false, [1]⟩,
      ⟨2, "desk", "desk@example.org", none, false, [2]⟩,
      ⟨3, "trainee", "trainee@example.org", none, false, [3]⟩]
  nodup_id := by decide

def resetForm : ResetPasswordForm := ⟨true, "reset", "Correct-Horse-Battery-9"⟩

theorem confined_of_scoped_trainee :
    Confined sampleRoles 2
      (State.step sampleRoles 2 ⟨sampleAccounts, []⟩ ⟨.resetPassword 3 resetForm, 1⟩) :=
  (confined_of_scoped sampleRoles (by decide) 2 sampleAccounts
    (.next .start (by decide +kernel))).1

/-- The help desk resets the password of the account that may do everything. -/
theorem not_confined_of_reset :
    ¬ hasNoCeiling sampleRoles sampleAccounts 2 ∧ ¬ Confined sampleRoles 2
        (State.step sampleRoles 2 ⟨sampleAccounts, []⟩ ⟨.resetPassword 1 resetForm, 1⟩) ∧
      ¬ RefusedUnlessInScope sampleRoles sampleAccounts 2 (.resetPassword 1 resetForm) ∧
      ¬ RefusedUnlessInScope sampleRoles sampleAccounts 2
        (.edit 1 ⟨true, "root", "desk@example.org"⟩) := by
  decide +kernel

end Abyssal.Rbac
