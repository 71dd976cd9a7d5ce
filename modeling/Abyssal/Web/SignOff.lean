import Abyssal.Auth.LoginLimiter
import Abyssal.Text.Layout

/-!
# The witness of a shredding

The witness signs in with a name and a password of their own. That it is not the person who deletes
is checked on the name as it is typed, but the account is the one that the database finds.

## Main results

* `signOff_separate_iff`: when the two are different.
-/

namespace Abyssal.Web

open Auth Text

variable {Permission : Type}

structure SignOffFields where
  witnessed : Bool
  witnessUsername : Text
  witnessPassword : Text
  note : Text

structure SanitizationSignOff where
  witness : Option (ℕ × Text)
  note : Text

/-- The accounts and the limiter, the setting that a witness is required and the permissions of a
user, where the database has them, and how a permission is named. -/
structure SignOffState (Permission : Type) where
  login : Login
  now : ℕ
  limiter : Attempts
  required : Except String Bool
  permissions : ℕ → Except String (List Permission)
  asKey : Permission → Text

def witnessKey (username : Text) : Text :=
  "witness:" ++ toAsciiLowercase username

variable [DecidableEq Permission]

/-- The second half of `sanitization_sign_off`, and the limiter afterwards. -/
def verifyWitness (state : SignOffState Permission) (requester : LoginAccount)
    (username password note : Text) (permission : Permission) :
    Except String SanitizationSignOff × Attempts :=
  if toAsciiLowercase username = toAsciiLowercase requester.username then
    (.error "The witness must be someone other than the person doing the deletion.", state.limiter)
  else
    let key := witnessKey username
    let (locked, limiter) :=
      isLocked state.login.maxAttempts state.login.window state.now state.limiter key
    if locked then
      (.error "Too many failed witness sign-ins for that user -- try again later.", limiter)
    else
      match (authenticate state.login username password state.now).1 with
      | .error _ =>
        (.error "Witness sign-in failed: wrong username or password, or that account is disabled.",
          recordFailure state.login.window state.now limiter key)
      | .ok witness =>
        match state.permissions witness.id with
        | .error e => (.error e, clear limiter key)
        | .ok permissions =>
          if permission ∈ permissions then
            (.ok ⟨some (witness.id, witness.username), note⟩, clear limiter key)
          else
            (.error (String.ofList (witness.username ++
              " isn't authorized to witness this: they'd need the " ++
              state.asKey permission ++ " permission themselves.")), clear limiter key)

def sanitizationSignOff (state : SignOffState Permission) (requester : LoginAccount) (passes : ℕ)
    (fields : SignOffFields) (permission : Permission) :
    Except String (Option SanitizationSignOff) × Attempts :=
  if passes = 0 then (.ok none, state.limiter)
  else
    let note := trim fields.note
    if 1000 < note.length then
      (.error "The sign-off note is limited to 1000 characters.", state.limiter)
    else
      match state.required with
      | .error e => (.error e, state.limiter)
      | .ok required =>
        if !fields.witnessed && !required then (.ok (some ⟨none, note⟩), state.limiter)
        else
          let username := trim fields.witnessUsername
          if username = [] || fields.witnessPassword = [] then
            (.error (if required then
              "A witness is required for shredding: the witness enters their own username and " ++
                "password in the Witness sign-off box."
            else
              "\"Witnessed\" is ticked -- the witness must enter their own username and password."),
              state.limiter)
          else
            let (signOff, limiter) :=
              verifyWitness state requester username fields.witnessPassword note permission
            (signOff.map some, limiter)

variable {state : SignOffState Permission} {requester : LoginAccount} {permission : Permission}

private theorem authenticate_eq_ok {L : Login} {username password : Text} {now : ℕ}
    {user : LoginAccount} : (authenticate L username password now).1 = .ok user ↔
      L.findByUsername username = some user ∧ user.active ∧ user.password = some password := by
  rw [authenticate]
  cases L.findByUsername username with
  | none => simp
  | some found =>
    cases hactive : found.active <;> cases hhash : found.password <;> grind

theorem witness_of_verifyWitness {username password note : Text} {signOff : SanitizationSignOff}
    (h : (verifyWitness state requester username password note permission).1 = .ok signOff) :
    toAsciiLowercase username ≠ toAsciiLowercase requester.username ∧
      ∃ user, (authenticate state.login username password state.now).1 = .ok user ∧
        signOff = ⟨some (user.id, user.username), note⟩ := by
  simp only [verifyWitness] at h
  split_ifs at h with hsame hlocked
  split at h
  · cases h
  · next user huser =>
    refine ⟨hsame, user, huser, ?_⟩
    split at h
    · cases h
    · split_ifs at h
      cases h
      rfl

/-- Nobody witnesses a deletion of their own exactly if the database finds their account, where it
can sign in, only under names that differ from it in nothing but ASCII case. -/
theorem signOff_separate_iff (login : Login) (requester : LoginAccount) (permission : Permission) :
    (∀ state : SignOffState Permission, state.login = login → ∀ passes fields signOff,
      (sanitizationSignOff state requester passes fields permission).1 = .ok (some signOff) →
        ∀ witness ∈ signOff.witness, witness.1 ≠ requester.id) ↔
    ∀ name password user, trim name = name → name ≠ [] → password ≠ [] →
      login.findByUsername name = some user → user.active → user.password = some password →
      user.id = requester.id → toAsciiLowercase name = toAsciiLowercase requester.username := by
  constructor
  · intro h name password user htrim hname hpassword hfind hactive hhash hid
    by_contra hcase
    have huser : (authenticate login name password 0).1 = .ok user :=
      authenticate_eq_ok.2 ⟨hfind, hactive, hhash⟩
    refine h ⟨login, 0, fun _ => none, .ok false, fun _ => .ok [permission], fun _ => []⟩ rfl 1
      ⟨true, name, password, []⟩ ⟨some (user.id, user.username), []⟩ ?_ _ rfl hid
    simp [sanitizationSignOff, verifyWitness, isLocked, htrim, hname, hpassword, hcase, huser]
    rfl
  · rintro h state rfl passes fields signOff hsign witness hwitness hid
    cases hrequired : state.required with
    | error =>
      simp only [sanitizationSignOff, hrequired] at hsign
      split_ifs at hsign
      cases hsign
    | ok =>
      simp only [sanitizationSignOff, hrequired] at hsign
      split_ifs at hsign with _ _ _ hempty
      · cases hsign
      · cases hsign
        cases hwitness
      · cases hverified : (verifyWitness state requester (trim fields.witnessUsername)
            fields.witnessPassword (trim fields.note) permission).1 with
        | error => cases hverified ▸ hsign
        | ok =>
          rw [hverified] at hsign
          cases hsign
          obtain ⟨hcase, user, huser, rfl⟩ := witness_of_verifyWitness hverified
          cases hwitness
          simp only [Bool.or_eq_true, decide_eq_true_eq, not_or] at hempty
          obtain ⟨hfind, hactive, hhash⟩ := authenticate_eq_ok.1 huser
          exact hcase (h _ _ user (trim_trim _) hempty.1 hempty.2 hfind hactive hhash hid)

def plainName (c : Char) : Char := if c = 'é' then 'e' else c

/-- The database finds the account of the requester under a name without the accent. -/
theorem signOff_of_accent : let requester : LoginAccount := ⟨1, "josé", true, some "pw"⟩
    let login : Login := ⟨[requester], fun a b => a.map plainName = b.map plainName, [], 10, 900⟩
    (sanitizationSignOff ⟨login, 0, fun _ => none, .ok true, fun _ => .ok [()], fun _ => []⟩
      requester 3 ⟨true, "jose", "pw", []⟩ ()).1 =
        .ok (some ⟨some (1, "josé"), []⟩) := by
  rfl

end Abyssal.Web
