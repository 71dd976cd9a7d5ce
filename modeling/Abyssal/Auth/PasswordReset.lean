import Abyssal.Rbac.UserManagement

/-!
# Reset codes

A user who forgot a password asks for a code, which sets a new one once, within an hour. A code is
touched by nothing but its own use: it outlives a password that is set in another way, and the
deactivation of the account. Each step has a number, under which the account or the code that it is
about is noted; no line of the source reads these.

## Main results

* `current_of_reached`: a code that no other password and no deactivation disturbs is current.
* `stale_code`: without that, it need not be.
-/

namespace Abyssal.Auth

open List Except Text Table Nat

open Rbac (validateStrength csrfMessage)

/-! ### The tables -/

/-- A row of `users`, with the password for its hash. `lastSet` is the number of the step that set
it. -/
structure Account where
  id : ℕ
  username : Text
  email : Text
  password : Option Text
  active : Bool
  mustChangePassword : Bool
  lastSet : ℕ

/-- A row of `password_resets`. `issued` is the number of the step that made it. -/
structure ResetCode where
  tokenHash : Text
  user : ℕ
  createdAt : ℕ
  expiresAt : ℕ
  usedAt : Option ℕ
  issued : ℕ

def ResetCode.Usable (c : ResetCode) (now : ℕ) : Prop := c.usedAt = none ∧ now < c.expiresAt

instance (c : ResetCode) (now : ℕ) : Decidable (c.Usable now) := instDecidableAnd

structure State where
  accounts : List Account
  codes : List ResetCode
  now : ℕ
  steps : ℕ
  nodup_id : (accounts.map Account.id).Nodup
  nodup_hash : (codes.map ResetCode.tokenHash).Nodup

inductive Refusal where
  | forbidden
  | notFound
  | internal
  | validation (message : String)
  | page (error : Option String)

structure Environment where
  hashToken : Text → Text
  sameText : Text → Text → Bool

def resetTokenTtl : ℕ := 3600

def resetCooldownMinutes : ℕ := 15

namespace State

variable (s : State)

def findById (id : ℕ) : Option Account := s.accounts.find? (·.id = id)

def findByEmail (env : Environment) (email : Text) : Option Account :=
  s.accounts.find? fun a => env.sameText a.email email

def modify (f : Account → Account) (hf : ∀ a, (f a).id = a.id) (id : ℕ) : State :=
  { s with
    accounts := Table.modify Account.id f id s.accounts
    nodup_id := by
      rw [map_key_modify hf]
      exact s.nodup_id }

def updatePassword (id : ℕ) (password : Text) (mustChange : Bool) : State :=
  s.modify (fun a => { a with
    password := some password, mustChangePassword := mustChange, lastSet := s.steps + 1 })
    (fun _ => rfl) id

def hasRecentRequest (user minutes : ℕ) : Bool :=
  s.codes.any fun c => c.user = user && s.now ≤ c.createdAt + minutes * 60

/-- `create` of a code, which fails if there is one with this hash. -/
def createCode (user : ℕ) (tokenHash : Text) (ttl : ℕ) : Option State :=
  if h : ∀ c ∈ s.codes, c.tokenHash ≠ tokenHash then
    some { s with
      codes := ⟨tokenHash, user, s.now, s.now + ttl, none, s.steps + 1⟩ :: s.codes
      nodup_hash := by
        rw [map_cons, nodup_cons]
        refine ⟨fun hmem => ?_, s.nodup_hash⟩
        obtain ⟨c, hc, hhash⟩ := mem_map.1 hmem
        exact h c hc hhash }
  else none

def usableCode (tokenHash : Text) : Option ResetCode :=
  (s.codes.find? (·.tokenHash = tokenHash)).filter (·.Usable s.now)

def spend (tokenHash : Text) : State :=
  { s with
    codes := Table.modify ResetCode.tokenHash (fun c => { c with usedAt := some s.now }) tokenHash
      s.codes
    nodup_hash := by
      rw [map_key_modify]
      · exact s.nodup_hash
      · intro c
        rfl }

end State

/-! ### The handlers -/

structure ResetForm where
  csrfValid : Bool
  token : Text
  newPassword : Text
  newPasswordConfirm : Text

structure ChangePasswordForm where
  csrfValid : Bool
  currentPassword : Text
  newPassword : Text
  newPasswordConfirm : Text

variable (env : Environment) (s : State)

/-- `submit_forgot_password`, with the token that is made for it. The count of recent requests may
fail. -/
def submitForgotPassword (csrfValid counted : Bool)
    (email rawToken : Text) : Except Refusal State := do
  ensure (csrfValid = true) (.validation csrfMessage)
  match s.findByEmail env (trim email) with
  | none => return s
  | some user =>
    let recent := counted && s.hasRecentRequest user.id resetCooldownMinutes
    if user.active && user.password.isSome && !recent then
      return (s.createCode user.id (env.hashToken rawToken) resetTokenTtl).getD s
    else return s

def submitResetPassword (form : ResetForm) : Except Refusal State := do
  ensure (form.csrfValid = true) (.validation csrfMessage)
  ensure (form.newPassword = form.newPasswordConfirm)
    (.page (some "New password and confirmation don't match."))
  ensure (validateStrength form.newPassword = none) (.page (validateStrength form.newPassword))
  let tokenHash := env.hashToken (trim form.token)
  let code ← orFail (s.usableCode tokenHash)
    (.page (some "That reset code is invalid or has expired. Request a new one."))
  let s := s.spend tokenHash
  let user ← orFail (s.findById code.user) .notFound
  return s.updatePassword user.id form.newPassword false

def resetPassword (mayModify : Bool) (id : ℕ) (form : Rbac.ResetPasswordForm) :
    Except Refusal State := do
  ensure (mayModify = true) .forbidden
  ensure (form.csrfValid = true) (.validation csrfMessage)
  let target ← orFail (s.findById id) .notFound
  ensure (form.intent ≠ "generate") (.page none)
  ensure (validateStrength form.password = none) (.page (validateStrength form.password))
  return s.updatePassword target.id form.password true

def changePassword (id : ℕ) (form : ChangePasswordForm) : Except Refusal State := do
  let user ← orFail (s.findById id) .forbidden
  ensure (user.active = true) .forbidden
  ensure (form.csrfValid = true) (.validation csrfMessage)
  let current ← orFail user.password (.page (some "This account has no local password to change."))
  ensure (form.currentPassword = current) (.page (some "Current password is incorrect."))
  ensure (form.newPassword = form.newPasswordConfirm)
    (.page (some "New password and confirmation don't match."))
  ensure (validateStrength form.newPassword = none) (.page (validateStrength form.newPassword))
  return s.updatePassword user.id form.newPassword false

/-- `edit`. The database refuses a name or an address that another account has. -/
def edit (mayModify : Bool) (id : ℕ) (form : Rbac.EditUserForm) : Except Refusal State := do
  ensure (mayModify = true) .forbidden
  ensure (form.csrfValid = true) (.validation csrfMessage)
  let target ← orFail (s.findById id) .notFound
  let username := trim form.username
  let email := trim form.email
  ensure (username ≠ [] ∧ byteLength username ≤ 64)
    (.page (some "Username must be 1-64 characters."))
  ensure (email ≠ [] ∧ '@' ∈ email) (.page (some "That doesn't look like a valid email address."))
  ensure (∀ a ∈ s.accounts, a.id ≠ id →
    env.sameText a.username username = false ∧ env.sameText a.email email = false) .internal
  return s.modify (fun a => { a with username := username, email := email }) (fun _ => rfl)
    target.id

/-- `enable` and `disable`. Only the second has to be confirmed. -/
def setActive (mayModify : Bool) (id : ℕ) (csrfValid confirm active : Bool) :
    Except Refusal State := do
  ensure (mayModify = true) .forbidden
  ensure (csrfValid = true) (.validation csrfMessage)
  ensure (active = true ∨ confirm = true)
    (.validation "Disabling this user was not confirmed.")
  let target ← orFail (s.findById id) .notFound
  return s.modify (fun a => { a with active := active }) (fun _ => rfl) target.id

inductive Event
  | forgotPassword (csrfValid counted : Bool) (email rawToken : Text)
  | resetWithCode (form : ResetForm)
  | resetPassword (mayModify : Bool) (id : ℕ) (form : Rbac.ResetPasswordForm)
  | changePassword (id : ℕ) (form : ChangePasswordForm)
  | edit (mayModify : Bool) (id : ℕ) (form : Rbac.EditUserForm)
  | setActive (mayModify : Bool) (id : ℕ) (csrfValid confirm active : Bool)
  | pass (seconds : ℕ)

def handle : Event → Except Refusal State
  | .forgotPassword csrfValid counted email rawToken =>
    submitForgotPassword env s csrfValid counted email rawToken
  | .resetWithCode form => submitResetPassword env s form
  | .resetPassword mayModify id form => resetPassword s mayModify id form
  | .changePassword id form => changePassword s id form
  | .edit mayModify id form => edit env s mayModify id form
  | .setActive mayModify id csrfValid confirm active =>
    setActive s mayModify id csrfValid confirm active
  | .pass seconds => .ok { s with now := s.now + seconds }

def State.withSteps (steps : ℕ) : State := { s with steps := steps }

def step (e : Event) : State :=
  match handle env s e with
  | .ok s' => s'.withSteps (s.steps + 1)
  | .error _ => s.withSteps (s.steps + 1)

/-! ### What a request does -/

variable {env : Environment} {s s' : State}

namespace State

theorem id_of_findById {id : ℕ} {a : Account} (h : s.findById id = some a) : a.id = id := by
  simpa using find?_some h

theorem mem_modify {f : Account → Account} (hf : ∀ a, (f a).id = a.id) {id : ℕ} {a' : Account}
    (h : a' ∈ (s.modify f hf id).accounts) :
    ∃ a ∈ s.accounts, a' = if a.id = id then f a else a := by
  obtain ⟨a, ha, rfl⟩ := mem_map.1 h
  exact ⟨a, ha, rfl⟩

variable {tokenHash : Text} {c : ResetCode}

theorem tokenHash_of_usableCode
    (h : s.usableCode tokenHash = some c) : c.tokenHash = tokenHash := by
  obtain ⟨hfind, -⟩ := Option.filter_eq_some_iff.1 h
  simpa using find?_some hfind

theorem mem_spend (h : c ∈ (s.spend tokenHash).codes)
    (hc : c.usedAt = none) : c ∈ s.codes ∧ c.tokenHash ≠ tokenHash := by
  obtain ⟨_, hc', rfl⟩ := mem_map.1 h
  split_ifs at hc ⊢ with hhash
  exact ⟨hc', hhash⟩

end State

variable {csrfValid : Bool}

theorem forgotPassword_cases {counted : Bool} {email rawToken : Text}
    (h : submitForgotPassword env s csrfValid counted email rawToken = .ok s') :
    s' = s ∨ ∃ user ∈ s.accounts, user.active ∧
      s.createCode user.id (env.hashToken rawToken) resetTokenTtl = some s' := by
  obtain ⟨-, h⟩ := ensure_bind_eq_ok.1 h
  cases hfind : s.findByEmail env (trim email) with
  | none =>
    rw [hfind] at h
    exact .inl (ok.inj h).symm
  | some user =>
    rw [hfind] at h
    dsimp only at h
    split_ifs at h with hgo
    · cases hcreate : s.createCode user.id (env.hashToken rawToken) resetTokenTtl with
      | none =>
        rw [hcreate] at h
        exact .inl (ok.inj h).symm
      | some =>
        rw [hcreate] at h
        cases h
        rw [Bool.and_eq_true, Bool.and_eq_true] at hgo
        exact .inr ⟨user, mem_of_find?_eq_some hfind, hgo.1.1, hcreate⟩
    · exact .inl (ok.inj h).symm

open State

theorem resetWithCode_spec {form : ResetForm} (h : submitResetPassword env s form = .ok s') :
    ∃ c, s.usableCode (env.hashToken (trim form.token)) = some c ∧ ∃ a ∈ s.accounts, a.id = c.user ∧
        s' = (s.spend (env.hashToken (trim form.token))).updatePassword a.id
          form.newPassword false := by
  simp only [submitResetPassword, ↓ensure_bind_eq_ok, bind_eq_ok, orFail_eq_ok] at h
  obtain ⟨-, -, -, -, c, hc, user, huser, h⟩ := h
  exact ⟨c, hc, user, mem_of_find?_eq_some huser, id_of_findById huser, (ok.inj h).symm⟩

variable {id : ℕ} {mayModify : Bool}

theorem resetPassword_spec {form : Rbac.ResetPasswordForm}
    (h : resetPassword s mayModify id form = .ok s') :
    s' = s.updatePassword id form.password true := by
  simp only [resetPassword, ↓ensure_bind_eq_ok, bind_eq_ok, orFail_eq_ok] at h
  obtain ⟨-, -, -, _, htarget, -, -, h⟩ := h
  rw [id_of_findById htarget] at h
  exact (ok.inj h).symm

theorem changePassword_spec {form : ChangePasswordForm} (h : changePassword s id form = .ok s') :
    s' = s.updatePassword id form.newPassword false := by
  simp only [changePassword, ↓ensure_bind_eq_ok, bind_eq_ok, orFail_eq_ok] at h
  obtain ⟨_, huser, -, -, _, -, -, -, -, h⟩ := h
  rw [id_of_findById huser] at h
  exact (ok.inj h).symm

theorem edit_spec {form : Rbac.EditUserForm} (h : edit env s mayModify id form = .ok s') :
    s' = s.modify (fun a => { a with
      username := trim form.username, email := trim form.email }) (fun _ => rfl) id := by
  simp only [edit, ↓ensure_bind_eq_ok, bind_eq_ok, orFail_eq_ok] at h
  obtain ⟨-, -, -, _, htarget, -, -, -, h⟩ := h
  rw [id_of_findById htarget] at h
  exact (ok.inj h).symm

theorem setActive_spec {confirm active : Bool}
    (h : setActive s mayModify id csrfValid confirm active = .ok s') :
    s' = s.modify (fun a => { a with active := active }) (fun _ => rfl) id := by
  simp only [setActive, ↓ensure_bind_eq_ok, bind_eq_ok, orFail_eq_ok] at h
  obtain ⟨-, -, -, -, _, htarget, h⟩ := h
  rw [id_of_findById htarget] at h
  exact (ok.inj h).symm

/-! ### Codes that are current -/

def Quiet (s : State) (id : ℕ) : Prop := ∀ c ∈ s.codes, c.user = id → ¬ c.Usable s.now

/-- No password is set and no account deactivated while another code of the account can be used. A
request that is refused does neither. -/
def Undisturbed (env : Environment) (s : State) (e : Event) : Prop :=
  ∀ s', handle env s e = .ok s' → match e with
    | .resetWithCode form => ∀ c ∈ s.usableCode (env.hashToken (trim form.token)),
        ∀ c' ∈ s.codes, c'.user = c.user → c'.Usable s.now → c' = c
    | .resetPassword _ id _ => Quiet s id
    | .changePassword id _ => Quiet s id
    | .setActive _ id _ _ active => active = true ∨ Quiet s id
    | .forgotPassword .. | .edit .. | .pass _ => True

/-- Every code that can be used is of an active account, whose password was not set since. -/
structure Current (s : State) : Prop where
  lastSet_le : ∀ a ∈ s.accounts, a.lastSet ≤ s.steps
  current : ∀ c ∈ s.codes, c.Usable s.now → ∀ a ∈ s.accounts, a.id = c.user →
    a.active = true ∧ a.lastSet < c.issued

theorem Current.modify (h : Current s) {f : Account → Account} {hf : ∀ a, (f a).id = a.id}
    (hlast : ∀ a ∈ s.accounts, (f a).lastSet ≤ s.steps + 1)
    (hown : ∀ c ∈ s.codes, c.Usable s.now → c.user = id → ∀ a ∈ s.accounts, a.id = id →
      (f a).active ∧ (f a).lastSet < c.issued) :
    Current ((s.modify f hf id).withSteps (s.steps + 1)) := by
  refine ⟨fun a' ha' => ?_, fun c hc husable a' ha' hid => ?_⟩
  · obtain ⟨a, ha, rfl⟩ := mem_modify hf ha'
    split_ifs
    · exact hlast a ha
    · exact (h.lastSet_le a ha).trans (le_succ _)
  · obtain ⟨a, ha, rfl⟩ := mem_modify hf ha'
    split_ifs at hid ⊢ with haid
    · rw [hf, haid] at hid
      exact hown c hc husable hid.symm a ha haid
    · exact h.current c hc husable a ha hid

theorem Current.spend (h : Current s) (tokenHash : Text) : Current (s.spend tokenHash) := by
  refine ⟨h.lastSet_le, fun c hc husable => ?_⟩
  exact h.current c (mem_spend hc husable.1).1 husable

theorem Current.updatePassword (h : Current s) (hquiet : Quiet s id)
    (password : Text) (mustChange : Bool) :
    Current ((s.updatePassword id password mustChange).withSteps (s.steps + 1)) :=
  h.modify (fun _ _ => le_refl _) fun c hc husable hid => absurd husable (hquiet c hc hid)

theorem Current.createCode (h : Current s) {user : Account} (huser : user ∈ s.accounts)
    (hactive : user.active) {tokenHash : Text} {ttl : ℕ}
    (hs' : s.createCode user.id tokenHash ttl = some s') :
    Current (s'.withSteps (s.steps + 1)) := by
  rw [State.createCode] at hs'
  split_ifs at hs'
  cases hs'
  refine ⟨fun a ha => (h.lastSet_le a ha).trans (le_succ _), fun c hc husable a ha hid => ?_⟩
  rcases mem_cons.1 hc with rfl | hc
  · obtain rfl := inj_on_of_nodup_map s.nodup_id ha huser hid
    exact ⟨hactive, lt_succ_of_le (h.lastSet_le a ha)⟩
  · exact h.current c hc husable a ha hid

theorem Current.step (h : Current s) {e : Event} (he : Undisturbed env s e) :
    Current (step env s e) := by
  have hcount : Current (s.withSteps (s.steps + 1)) :=
    ⟨fun a ha => (h.lastSet_le a ha).trans (le_succ _), h.current⟩
  rw [Auth.step]
  cases hhandle : handle env s e with
  | error => exact hcount
  | ok =>
    replace he := he _ hhandle
    cases e with
    | forgotPassword =>
      rcases forgotPassword_cases hhandle with rfl | ⟨user, huser, hactive, hs'⟩
      · exact hcount
      · exact h.createCode huser hactive hs'
    | resetWithCode =>
      obtain ⟨c, hc, a, -, haid, rfl⟩ := resetWithCode_spec hhandle
      refine (h.spend _).updatePassword (fun c' hc' hid husable => ?_) _ _
      obtain ⟨hmem, hhash⟩ := mem_spend hc' husable.1
      rw [he c hc c' hmem (hid.trans haid) husable] at hhash
      exact hhash (tokenHash_of_usableCode hc)
    | resetPassword =>
      rw [resetPassword_spec hhandle]
      exact h.updatePassword he _ _
    | changePassword =>
      rw [changePassword_spec hhandle]
      exact h.updatePassword he _ _
    | edit =>
      rw [edit_spec hhandle]
      refine h.modify (fun a ha => (h.lastSet_le a ha).trans (le_succ _)) ?_
      exact fun c hc husable hid a ha haid => h.current c hc husable a ha (haid.trans hid.symm)
    | setActive =>
      rw [setActive_spec hhandle]
      refine h.modify (fun a ha => (h.lastSet_le a ha).trans (le_succ _)) ?_
      intro c hc husable hid a ha haid
      rcases he with rfl | hquiet
      · exact ⟨rfl, (h.current c hc husable a ha (haid.trans hid.symm)).2⟩
      · exact absurd husable (hquiet c hc hid)
    | pass =>
      cases hhandle
      refine ⟨hcount.lastSet_le, fun c hc husable => h.current c hc ⟨husable.1, ?_⟩⟩
      exact lt_of_le_of_lt (le_add_right _ _) husable.2

/-- In every run that disturbs no code, a reset spends a code of the account whose password it sets,
the account is active, and its password was not set since the code was made. -/
theorem current_of_reached {s₀ : State} (hcodes : s₀.codes = [])
    (hlast : ∀ a ∈ s₀.accounts, a.lastSet ≤ s₀.steps)
    (h : Machine.Reached (step env) (Undisturbed env) s₀ s) {form : ResetForm}
    (hreset : submitResetPassword env s form = .ok s') :
    ∃ c ∈ s.codes, c.tokenHash = env.hashToken (trim form.token) ∧ ∃ a ∈ s.accounts, a.id = c.user ∧
        s' = (s.spend c.tokenHash).updatePassword a.id form.newPassword false ∧
        a.active ∧ a.lastSet < c.issued := by
  have hcurrent : Current s := by
    refine h.inv ⟨hlast, ?_⟩ fun s e hs he => hs.step he
    rw [hcodes]
    exact nofun
  obtain ⟨c, hc, a, ha, hid, rfl⟩ := resetWithCode_spec hreset
  obtain ⟨hfind, husable⟩ := Option.filter_eq_some_iff.1 hc
  have hmem := mem_of_find?_eq_some hfind
  have hhash := tokenHash_of_usableCode hc
  have hcode := hcurrent.current c hmem (of_decide_eq_true husable) a ha hid
  refine ⟨c, hmem, hhash, a, ha, hid, ?_, hcode⟩
  rw [hhash]

/-! ### A code that outlives a reset -/

def plain : Environment := ⟨fun token => token, fun a b => a = b⟩

def oneAccount : State where
  accounts := [⟨1, "ada", "ada@abyss", some "old", true, false, 0⟩]
  codes := []
  now := 0
  steps := 0
  nodup_id := by decide
  nodup_hash := by decide

def forgot (token : String) : Event := .forgotPassword true true "ada@abyss" token.toList

def newPassword (token : String) : ResetForm :=
  ⟨true, token.toList, "Correct-Horse-Battery-9", "Correct-Horse-Battery-9"⟩

theorem current_of_reached_once : ∃ c ∈ (step plain oneAccount (forgot "first")).codes,
    ∃ a ∈ (step plain oneAccount (forgot "first")).accounts,
      a.id = c.user ∧ a.active ∧ a.lastSet < c.issued := by
  have hreached : Machine.Reached (step plain) (Undisturbed plain) oneAccount
      (step plain oneAccount (forgot "first")) := .next .start fun _ _ => trivial
  obtain ⟨s', hs'⟩ : ∃ s', submitResetPassword plain (step plain oneAccount (forgot "first"))
    (newPassword "first") = .ok s' := ⟨_, rfl⟩
  obtain ⟨c, hc, -, a, ha, hid, -, hactive⟩ := current_of_reached rfl (by decide) hreached hs'
  exact ⟨c, hc, a, ha, hid, hactive⟩

def secondUsed : List Event :=
  [forgot "first", .pass 1000, forgot "second", .resetWithCode (newPassword "second")]

def deactivated : List Event := [forgot "first", .setActive true 1 true true false]

/-- A code sets a password that was set after the code was made, and the password of an account
that is not active. -/
theorem stale_code :
    (∃ s s', Machine.Reached (step plain) (fun _ _ => True) oneAccount s ∧
      submitResetPassword plain s (newPassword "first") = .ok s' ∧
      ∃ c ∈ s.codes, c.tokenHash = "first" ∧ ∃ a ∈ s.accounts, a.id = c.user ∧
        c.issued < a.lastSet) ∧
    ∃ s s', Machine.Reached (step plain) (fun _ _ => True) oneAccount s ∧
      submitResetPassword plain s (newPassword "first") = .ok s' ∧
      ∃ c ∈ s.codes, c.tokenHash = "first" ∧ ∃ a ∈ s.accounts, a.id = c.user ∧
        a.active = false := by
  constructor
  · refine ⟨secondUsed.foldl (step plain) oneAccount, _, Machine.reached_of_allows rfl, rfl, ?_⟩
    decide
  · refine ⟨deactivated.foldl (step plain) oneAccount, _, Machine.reached_of_allows rfl, rfl, ?_⟩
    decide

end Abyssal.Auth
