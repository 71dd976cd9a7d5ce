import Abyssal.Limit.SlidingWindow
import Abyssal.Machine.Guarded
import Abyssal.Table.PartialMap
import Abyssal.Text.Basic

/-!
# The limit on login attempts

An attempt asks the limiter whether the name, as it was typed, has too many recent failures from
this address, then verifies the password, and records a failure or clears what was recorded.
Attempts go on between the question and the verification, and the database may take names for the
same that differ in case. A success forgets the failures before it.

## Main results

* `verifications_le_of_reached`: the bound on verifications.
-/

namespace Abyssal.Auth

open Limit List Option Function

/-! ### The limiter -/

/-- The attempts that `LoginLimiter` keeps, by key. -/
abbrev Attempts := Text → Option (List ℕ)

/-- `is_locked`, and the attempts afterwards. -/
def isLocked (maxAttempts window now : ℕ) (attempts : Attempts) (key : Text) : Bool × Attempts :=
  match attempts key with
  | some entries =>
    let entries := keep window now entries
    (maxAttempts ≤ entries.length, update attempts key (some entries))
  | none => (false, attempts)

def recordFailure (window now : ℕ) (attempts : Attempts) (key : Text) : Attempts :=
  update attempts key (some (keep window now ((attempts key).getD []) ++ [now]))

def clear (attempts : Attempts) (key : Text) : Attempts := update attempts key none

/-! ### Attempts -/

/-- What is read of a row of `users`. The stored hash of a password is represented by the
password. -/
structure LoginAccount where
  id : ℕ
  username : Text
  active : Bool
  password : Option Text

/-- The accounts, the collation, the address of the client, and the parameters of the limiter. -/
structure Login where
  accounts : List LoginAccount
  sameText : Text → Text → Bool
  ip : Text
  maxAttempts : ℕ
  window : ℕ

inductive AuthError
  | invalidCredentials
  | accountDisabled
  deriving DecidableEq

structure Verification where
  account : ℕ
  time : ℕ
  success : Bool

/-- Where an attempt is. One that failed is answered with a message. -/
inductive AttemptPhase
  | arrived
  | admitted
  | failed (error : AuthError)
  | succeeded
  | done (message : Option String)

structure Attempt where
  username : Text
  password : Text
  phase : AttemptPhase

/-- The limiter, the attempts made so far, the time, and the verifications, the last one first. -/
structure LoginState where
  limiter : Attempts
  attempts : ℕ → Option Attempt
  now : ℕ
  log : List Verification

inductive LoginEvent
  | arrive (i : ℕ) (csrfValid : Bool) (username password : Text)
  | check (i : ℕ)
  | verify (i : ℕ)
  | settle (i : ℕ)
  | pass (d : ℕ)

variable (L : Login)

def Login.findByUsername (username : Text) : Option LoginAccount :=
  L.accounts.find? fun a => L.sameText a.username username

def Login.key (username : Text) : Text := username ++ ':' :: L.ip

/-- `authenticate`, with the verification it makes. -/
def authenticate (username password : Text) (now : ℕ) :
    Except AuthError LoginAccount × Option Verification :=
  match L.findByUsername username with
  | none => (.error .invalidCredentials, none)
  | some user =>
    if user.active then
      match user.password with
      | none => (.error .invalidCredentials, none)
      | some hash =>
        if password = hash then (.ok user, some ⟨user.id, now, true⟩)
        else (.error .invalidCredentials, some ⟨user.id, now, false⟩)
    else (.error .accountDisabled, none)

def AuthError.message : AuthError → String
  | accountDisabled => "This account has been disabled."
  | invalidCredentials => "Invalid username or password."

namespace LoginState

variable (s : LoginState)

def setPhase (i : ℕ) (a : Attempt) (phase : AttemptPhase) : ℕ → Option Attempt :=
  update s.attempts i (some { a with phase := phase })

def check (i : ℕ) (a : Attempt) : LoginState :=
  let (locked, limiter) := isLocked L.maxAttempts L.window s.now s.limiter (L.key a.username)
  { s with
    limiter := limiter
    attempts := s.setPhase i a
      (if locked then .done (some "Too many failed attempts. Try again later.") else .admitted) }

def verify (i : ℕ) (a : Attempt) : LoginState :=
  let (result, verification) := authenticate L a.username a.password s.now
  { s with
    attempts := s.setPhase i a
      (match result with
      | .ok _ => .succeeded
      | .error error => .failed error)
    log := verification.toList ++ s.log }

end LoginState

variable (s : LoginState)

/-- `submit`, step by step. -/
def loginStep : LoginEvent → LoginState
  | .arrive i csrfValid username password =>
    match s.attempts i with
    | none =>
      if csrfValid then
        { s with attempts := update s.attempts i (some ⟨username, password, .arrived⟩) }
      else s
    | some _ => s
  | .check i =>
    match s.attempts i with
    | some ⟨username, password, .arrived⟩ => s.check L i ⟨username, password, .arrived⟩
    | _ => s
  | .verify i =>
    match s.attempts i with
    | some ⟨username, password, .admitted⟩ => s.verify L i ⟨username, password, .admitted⟩
    | _ => s
  | .settle i =>
    match s.attempts i with
    | some ⟨username, password, .failed error⟩ =>
      { s with
        limiter := recordFailure L.window s.now s.limiter (L.key username)
        attempts := s.setPhase i ⟨username, password, .failed error⟩ (.done (some error.message)) }
    | some ⟨username, password, .succeeded⟩ =>
      { s with
        limiter := clear s.limiter (L.key username)
        attempts := s.setPhase i ⟨username, password, .succeeded⟩ (.done none) }
    | _ => s
  | .pass d => { s with now := s.now + d }

/-! ### What is counted -/

def Login.on (id : ℕ) (a : Attempt) : Prop :=
  (L.findByUsername a.username).map LoginAccount.id = some id

def Attempt.InFlight (a : Attempt) : Prop :=
  a.phase = .admitted ∨ (∃ error, a.phase = .failed error) ∨ a.phase = .succeeded

def LoginState.entries (username : Text) : List ℕ :=
  (s.limiter (L.key username)).getD []

/-- The attempts on an account use one spelling, do not overlap, and none succeeds while a failure
counts. -/
def Orderly : LoginEvent → Prop
  | .arrive _ _ username _ => ∀ j a id, s.attempts j = some a → L.on id a →
      (L.findByUsername username).map LoginAccount.id = some id → a.username = username
  | .check i => ∀ j a b id, s.attempts i = some a → s.attempts j = some b → i ≠ j →
      L.on id a → L.on id b → ¬ b.InFlight
  | .settle i => ∀ a, s.attempts i = some a → a.phase = .succeeded →
      live L.window s.now (s.entries L a.username) = 0
  | .verify _ | .pass _ => True

def failures (id : ℕ) (log : List Verification) : List ℕ :=
  (log.filter fun v => v.account = id ∧ v.success = false).map Verification.time

def inWindow (id T : ℕ) (log : List Verification) : List Verification :=
  log.filter fun v => v.account = id ∧ T ≤ v.time ∧ v.time < T + L.window

/-! ### The bound -/

/-- The attempt is one on the account. -/
def LoginState.Tries (id i : ℕ) (a : Attempt) : Prop :=
  s.attempts i = some a ∧ L.on id a

/-- The failed verifications of an account are bounded in every window, each of them that counts is
recorded or about to be, and an attempt that was let through leaves room for one more. -/
structure Bounded (id : ℕ) (s : LoginState) : Prop where
  le_now : ∀ t ∈ failures id s.log, t ≤ s.now
  windows : ∀ T, within L.window T (failures id s.log) ≤ L.maxAttempts
  origin : failures id s.log ≠ [] → ∃ i a, s.Tries L id i a
  spelled : ∀ i j a b, s.Tries L id i a → s.Tries L id j b → a.username = b.username
  alone : ∀ i j a b, s.Tries L id i a → s.Tries L id j b → a.InFlight → b.InFlight → i = j
  covered : ∀ i a, s.Tries L id i a → ∀ n, s.now ≤ n →
    live L.window n (failures id s.log) ≤ live L.window n (s.entries L a.username) + 1
  settled : (∀ i a, s.Tries L id i a → ∀ error, a.phase ≠ .failed error) →
    ∀ i a, s.Tries L id i a → ∀ n, s.now ≤ n →
      live L.window n (failures id s.log) ≤ live L.window n (s.entries L a.username)
  credit : ∀ i a, s.Tries L id i a → a.phase = .admitted → ∀ n, s.now ≤ n →
    live L.window n (failures id s.log) < L.maxAttempts

/-- An attempt moves on, and with it no more than what is kept under its name. -/
structure Moves (s s' : LoginState) (i : ℕ) (a a' : Attempt) : Prop where
  before : s.attempts i = some a
  attempts : s'.attempts = update s.attempts i (some a')
  username : a'.username = a.username
  now : s'.now = s.now
  entries : ∀ u, u ≠ a.username → s'.entries L u = s.entries L u

variable {L} {id i : ℕ} {s s' : LoginState} {a a' : Attempt}

theorem key_injective : Injective L.key := fun _ _ h => append_cancel_right h

theorem entries_update_of_ne {limiter : Attempts} {u u' : Text} (h : u ≠ u')
    (entries : Option (List ℕ)) :
    (update limiter (L.key u') entries) (L.key u) = limiter (L.key u) :=
  update_of_ne (fun hkey => h (key_injective hkey)) _ _

theorem Moves.on_iff (h : Moves L s s' i a a') : L.on id a' ↔ L.on id a := by
  rw [Login.on, Login.on, h.username]

theorem Moves.tries_iff (h : Moves L s s' i a a') {j : ℕ} {b : Attempt} : s'.Tries L id j b ↔
    (j = i ∧ b = a' ∧ L.on id a) ∨ (j ≠ i ∧ s.Tries L id j b) := by
  rw [LoginState.Tries, h.attempts, Table.update_eq_some, or_and_right, and_assoc, and_assoc]
  refine or_congr_left (and_congr_right fun _ => ?_)
  constructor
  · rintro ⟨rfl, hon⟩
    exact ⟨rfl, h.on_iff.1 hon⟩
  · rintro ⟨rfl, hon⟩
    exact ⟨rfl, h.on_iff.2 hon⟩

theorem Bounded.other (h : Bounded L id s) (hmove : Moves L s s' i a a') (hon : ¬ L.on id a)
    (hlog : failures id s'.log = failures id s.log) : Bounded L id s' := by
  have hold : ∀ {j b}, s'.Tries L id j b ↔ s.Tries L id j b := by
    intro j b
    rw [hmove.tries_iff]
    constructor
    · rintro (⟨-, -, ha⟩ | ⟨-, hb⟩)
      · exact absurd ha hon
      · exact hb
    · intro hb
      refine .inr ⟨?_, hb⟩
      rintro rfl
      exact hon (some.inj (hmove.before.symm.trans hb.1) ▸ hb.2)
  have hentries : ∀ {j b}, s.Tries L id j b → s'.entries L b.username = s.entries L b.username := by
    refine fun hb => hmove.entries _ fun hname => hon ?_
    rw [Login.on, ← hname]
    exact hb.2
  constructor
  · rw [hlog, hmove.now]
    exact h.le_now
  · rw [hlog]
    exact h.windows
  · simpa only [hlog, hold] using h.origin
  · simpa only [hold] using h.spelled
  · simpa only [hold] using h.alone
  · intro j b hb
    rw [hlog, hmove.now, hentries (hold.1 hb)]
    exact h.covered j b (hold.1 hb)
  · intro hfailed j b hb
    rw [hlog, hmove.now, hentries (hold.1 hb)]
    exact h.settled (fun k c hc => hfailed k c (hold.2 hc)) j b (hold.1 hb)
  · simpa only [hlog, hmove.now, hold] using h.credit

theorem Bounded.not_inFlight (h : Bounded L id s) (ha : s.Tries L id i a) (hflight : a.InFlight)
    {j : ℕ} {b : Attempt} (hj : j ≠ i) (hb : s.Tries L id j b) : ¬ b.InFlight := fun hbflight =>
  hj (h.alone j i b a hb ha hbflight hflight)

theorem Bounded.settled_of_alone (h : Bounded L id s) (ha : s.Tries L id i a)
    (hothers : ∀ j b, j ≠ i → s.Tries L id j b → ¬ b.InFlight)
    (hphase : ∀ error, a.phase ≠ .failed error) {n : ℕ} (hn : s.now ≤ n) :
    live L.window n (failures id s.log) ≤ live L.window n (s.entries L a.username) := by
  refine h.settled (fun j b hb error hfailed => ?_) i a ha n hn
  by_cases hj : j = i
  · subst hj
    cases ha.1.symm.trans hb.1
    exact hphase error hfailed
  · exact hothers j b hj hb (.inr (.inl ⟨error, hfailed⟩))

theorem Bounded.own (h : Bounded L id s) (hmove : Moves L s s' i a a') (hon : L.on id a)
    (hothers : ∀ j b, j ≠ i → s.Tries L id j b → ¬ b.InFlight)
    (hle : ∀ t ∈ failures id s'.log, t ≤ s.now)
    (hwindows : ∀ T, within L.window T (failures id s'.log) ≤ L.maxAttempts)
    (hcovered : ∀ n, s.now ≤ n → live L.window n (failures id s'.log) ≤
      live L.window n (s'.entries L a.username) + 1)
    (hsettled : (∀ error, a'.phase ≠ .failed error) → ∀ n, s.now ≤ n →
      live L.window n (failures id s'.log) ≤ live L.window n (s'.entries L a.username))
    (hcredit : a'.phase = .admitted → ∀ n, s.now ≤ n →
      live L.window n (failures id s'.log) < L.maxAttempts) : Bounded L id s' := by
  have hname : ∀ {j b}, s'.Tries L id j b → b.username = a.username := by
    intro j b hb
    rcases hmove.tries_iff.1 hb with ⟨-, rfl, -⟩ | ⟨-, hb⟩
    · exact hmove.username
    · exact h.spelled j i b a hb ⟨hmove.before, hon⟩
  have hi : s'.Tries L id i a' := hmove.tries_iff.2 (.inl ⟨rfl, rfl, hon⟩)
  have hflying : ∀ {j b}, s'.Tries L id j b → b.InFlight → j = i ∧ b = a' := by
    intro j b hb hflight
    rcases hmove.tries_iff.1 hb with ⟨hj, hb, -⟩ | ⟨hj, hb⟩
    · exact ⟨hj, hb⟩
    · exact absurd hflight (hothers j b hj hb)
  constructor
  · rwa [hmove.now]
  · exact hwindows
  · exact fun _ => ⟨i, a', hi⟩
  · intro j k b c hb hc
    rw [hname hb, hname hc]
  · intro j k b c hb hc hbflight hcflight
    rw [(hflying hb hbflight).1, (hflying hc hcflight).1]
  · intro j b hb
    rwa [hmove.now, hname hb]
  · intro hfailed j b hb
    rw [hmove.now, hname hb]
    exact hsettled (hfailed i a' hi)
  · intro j b hb hadmitted
    rw [hmove.now]
    exact hcredit ((hflying hb (.inl hadmitted)).2 ▸ hadmitted)

open Nat

theorem Bounded.arrive (h : Bounded L id s) {username password : Text} (hnone : s.attempts i = none)
    (hok : ∀ j b, s.Tries L id j b →
      (L.findByUsername username).map LoginAccount.id = some id → b.username = username) :
    Bounded L id { s with
      attempts := update s.attempts i (some ⟨username, password, .arrived⟩) } := by
  set a : Attempt := ⟨username, password, .arrived⟩
  set s' : LoginState := { s with attempts := update s.attempts i (some a) }
  have hphase : ¬ a.InFlight := by
    rintro (hphase | ⟨_, hphase⟩ | hphase) <;> cases hphase
  have hcases : ∀ {j b}, s'.Tries L id j b → b = a ∧ L.on id a ∨ s.Tries L id j b := by
    rintro j b ⟨hb, hbid⟩
    rcases Table.update_eq_some.1 hb with ⟨-, rfl⟩ | ⟨-, hb⟩
    · exact .inl ⟨rfl, hbid⟩
    · exact .inr ⟨hb, hbid⟩
  have hkept : ∀ {j b}, s.Tries L id j b → s'.Tries L id j b :=
    And.imp_left fun hb => Table.update_of_eq_some hnone hb _
  -- either the account had no attempt and so no failure, or one of the same spelling
  have hname : ∀ {j b}, s'.Tries L id j b → failures id s.log = [] ∨
      ∃ k c, s.Tries L id k c ∧ c.username = b.username := by
    intro j b hb
    rcases hcases hb with ⟨rfl, haid⟩ | hb
    · refine or_iff_not_imp_left.2 fun hne => ?_
      obtain ⟨k, c, hc⟩ := h.origin hne
      exact ⟨k, c, hc, hok k c hc haid⟩
    · exact .inr ⟨j, b, hb, rfl⟩
  constructor
  · exact h.le_now
  · exact h.windows
  · intro hne
    obtain ⟨j, b, hb⟩ := h.origin hne
    exact ⟨j, b, hkept hb⟩
  · intro j k b c hb hc
    rcases hcases hb with ⟨rfl, haid⟩ | hb <;> rcases hcases hc with ⟨rfl, haid⟩ | hc
    · rfl
    · exact (hok k c hc haid).symm
    · exact hok j b hb haid
    · exact h.spelled j k b c hb hc
  · intro j k b c hb hc hbflight hcflight
    rcases hcases hb with ⟨rfl, -⟩ | hb
    · exact absurd hbflight hphase
    · rcases hcases hc with ⟨rfl, -⟩ | hc
      · exact absurd hcflight hphase
      · exact h.alone j k b c hb hc hbflight hcflight
  · intro j b hb n hn
    rcases hname hb with hnil | ⟨k, c, hc, hcname⟩
    · simp [s', hnil, live]
    · rw [← hcname]
      exact h.covered k c hc n hn
  · intro hfailed j b hb n hn
    rcases hname hb with hnil | ⟨k, c, hc, hcname⟩
    · simp [s', hnil, live]
    · rw [← hcname]
      exact h.settled (fun k c hc => hfailed k c (hkept hc)) k c hc n hn
  · intro j b hb hadmitted
    rcases hcases hb with ⟨rfl, -⟩ | hb
    · cases hadmitted
    · exact h.credit j b hb hadmitted

theorem Bounded.pass (h : Bounded L id s) (d : ℕ) : Bounded L id { s with now := s.now + d } where
  le_now t ht := le_add_right_of_le (h.le_now t ht)
  windows := h.windows
  origin := h.origin
  spelled := h.spelled
  alone := h.alone
  covered j b hb n hn := h.covered j b hb n (le_of_add_right_le hn)
  settled hfailed j b hb n hn := h.settled hfailed j b hb n (le_of_add_right_le hn)
  credit j b hb hadmitted n hn := h.credit j b hb hadmitted n (le_of_add_right_le hn)

theorem isLocked_spec (maxAttempts window now : ℕ) (attempts : Attempts) (key : Text) :
    (∀ k, k ≠ key → (isLocked maxAttempts window now attempts key).2 k = attempts k) ∧
    ((isLocked maxAttempts window now attempts key).2 key).getD [] =
      keep window now ((attempts key).getD []) ∧
    ((isLocked maxAttempts window now attempts key).1 = false → 0 < maxAttempts →
      live window now ((attempts key).getD []) < maxAttempts) := by
  unfold isLocked
  cases hkey : attempts key with
  | none => exact ⟨fun _ _ => rfl, congrArg (getD · []) hkey, fun _ hmax => hmax⟩
  | some entries =>
    refine ⟨fun k hk => update_of_ne hk _ _, by simp, fun hfree _ => ?_⟩
    rw [← length_keep]
    exact Nat.lt_of_not_le (of_decide_eq_false hfree)

theorem Bounded.check (h : Bounded L id s) (hmax : 0 < L.maxAttempts) (ha : s.attempts i = some a)
    (hphase : a.phase = .arrived)
    (hothers : L.on id a → ∀ j b, j ≠ i → s.Tries L id j b → ¬ b.InFlight) :
    Bounded L id (s.check L i a) := by
  obtain ⟨helse, hkeep, hfree⟩ :=
    isLocked_spec L.maxAttempts L.window s.now s.limiter (L.key a.username)
  set locked := (isLocked L.maxAttempts L.window s.now s.limiter (L.key a.username)).1
  let phase : AttemptPhase :=
    if locked then .done (some "Too many failed attempts. Try again later.") else .admitted
  have hmove : Moves L s (s.check L i a) i a { a with phase := phase } :=
    ⟨ha, rfl, rfl, rfl, fun u hu =>
      congrArg (getD · []) (helse _ fun hkey => hu (key_injective hkey))⟩
  by_cases hon : L.on id a
  swap
  · exact h.other hmove hon rfl
  have hlive : ∀ n, s.now ≤ n → live L.window n ((s.check L i a).entries L a.username) =
      live L.window n (s.entries L a.username) := by
    intro n hn
    refine (congrArg (live L.window n) hkeep).trans ?_
    exact live_keep hn _
  have hnot : ∀ error, a.phase ≠ .failed error := by
    simp [hphase]
  refine h.own hmove hon (hothers hon) h.le_now h.windows ?_ ?_ ?_
  · intro n hn
    rw [hlive n hn]
    exact h.covered i a ⟨ha, hon⟩ n hn
  · intro _ n hn
    rw [hlive n hn]
    exact h.settled_of_alone ⟨ha, hon⟩ (hothers hon) hnot hn
  · intro hadmitted n hn
    have hunlocked : locked = false := by
      rw [← Bool.not_eq_true]
      intro hlocked
      cases (if_pos hlocked).symm.trans hadmitted
    calc live L.window n (failures id s.log)
      _ ≤ live L.window n (s.entries L a.username) :=
        h.settled_of_alone ⟨ha, hon⟩ (hothers hon) hnot hn
      _ ≤ live L.window s.now (s.entries L a.username) := live_anti hn _
      _ < L.maxAttempts := hfree hunlocked hmax

theorem authenticate_cases (L : Login) (username password : Text) (now : ℕ) :
    (∃ user, L.findByUsername username = some user ∧
      authenticate L username password now = (.ok user, some ⟨user.id, now, true⟩)) ∨
    (∃ error, authenticate L username password now = (.error error, none)) ∨
    (∃ user error, L.findByUsername username = some user ∧
      authenticate L username password now = (.error error, some ⟨user.id, now, false⟩)) := by
  unfold authenticate
  cases L.findByUsername username with
  | none => exact .inr (.inl ⟨_, rfl⟩)
  | some user =>
    dsimp only
    split
    · split
      · exact .inr (.inl ⟨_, rfl⟩)
      · split
        · exact .inl ⟨user, rfl, rfl⟩
        · exact .inr (.inr ⟨user, _, rfl, rfl⟩)
    · exact .inr (.inl ⟨_, rfl⟩)

private theorem failures_cons (id : ℕ) (v : Verification) (log : List Verification) :
    failures id (v :: log) = if v.account = id ∧ v.success = false then v.time :: failures id log
      else failures id log := by
  split_ifs <;> simp_all [failures]

theorem Bounded.verified (h : Bounded L id s) (ha : s.attempts i = some a)
    (hadmitted : a.phase = .admitted) {phase : AttemptPhase} {log : List Verification}
    (hphase : (∃ error, phase = .failed error) ∨
      phase = .succeeded ∧ failures id log = failures id s.log)
    (hlog : failures id log = failures id s.log ∨
      L.on id a ∧ failures id log = s.now :: failures id s.log) :
    Bounded L id { s with attempts := s.setPhase i a phase, log := log } := by
  have hmove : Moves L s { s with attempts := s.setPhase i a phase, log := log } i a
      { a with phase := phase } := ⟨ha, rfl, rfl, rfl, fun _ _ => rfl⟩
  by_cases hon : L.on id a
  swap
  · exact h.other hmove hon (hlog.resolve_right fun hlog => hon hlog.1)
  have hothers : ∀ j b, j ≠ i → s.Tries L id j b → ¬ b.InFlight :=
    fun j b => h.not_inFlight ⟨ha, hon⟩ (.inl hadmitted)
  have hsettled : ∀ n, s.now ≤ n →
      live L.window n (failures id s.log) ≤ live L.window n (s.entries L a.username) := by
    intro n hn
    exact h.settled_of_alone ⟨ha, hon⟩ hothers (by simp [hadmitted]) hn
  refine h.own hmove hon hothers ?_ ?_ ?_ ?_ ?_
  · intro t ht
    rcases hlog with hlog | ⟨-, hlog⟩
    · exact h.le_now t (hlog ▸ ht)
    · rcases mem_cons.1 (hlog ▸ ht) with rfl | ht
      · exact Nat.le_refl _
      · exact h.le_now t ht
  · rcases hlog with hlog | ⟨-, hlog⟩
    · rw [hlog]
      exact h.windows
    · rw [hlog]
      exact within_cons_le h.windows (h.credit i a ⟨ha, hon⟩ hadmitted s.now (Nat.le_refl _))
  · intro n hn
    rcases hlog with hlog | ⟨-, hlog⟩
    · rw [hlog]
      exact le_succ_of_le (hsettled n hn)
    · have hone : live L.window n [s.now] ≤ 1 := countP_le_length
      rw [hlog, live_cons, Nat.add_comm]
      exact Nat.add_le_add (hsettled n hn) hone
  · intro hnot n hn
    rcases hphase with ⟨error, rfl⟩ | ⟨-, hlog⟩
    · exact absurd rfl (hnot error)
    · rw [hlog]
      exact hsettled n hn
  · intro hagain
    rcases hphase with ⟨error, rfl⟩ | ⟨rfl, -⟩ <;> cases hagain

theorem Bounded.verify (h : Bounded L id s) (ha : s.attempts i = some a)
    (hadmitted : a.phase = .admitted) : Bounded L id (s.verify L i a) := by
  unfold LoginState.verify
  rcases authenticate_cases L a.username a.password s.now with
    ⟨user, -, hauth⟩ | ⟨error, hauth⟩ | ⟨user, error, huser, hauth⟩
  · have hlog : failures id (⟨user.id, s.now, true⟩ :: s.log) = failures id s.log := by
      simp [failures_cons]
    rw [hauth]
    exact h.verified ha hadmitted (.inr ⟨rfl, hlog⟩) (.inl hlog)
  · rw [hauth]
    exact h.verified ha hadmitted (.inl ⟨error, rfl⟩) (.inl rfl)
  · rw [hauth]
    refine h.verified ha hadmitted (.inl ⟨error, rfl⟩) ?_
    by_cases hid : user.id = id
    · exact .inr ⟨by rw [Login.on, huser, map_some, hid], by simp [failures_cons, hid]⟩
    · exact .inl (by simp [failures_cons, hid])

/-- An attempt comes to its end; what is then kept under its name still covers the failures. -/
theorem Bounded.finish (h : Bounded L id s) (ha : s.attempts i = some a) (hflight : a.InFlight)
    {entries : Option (List ℕ)} (hcovered : L.on id a → ∀ n, s.now ≤ n →
      live L.window n (failures id s.log) ≤ live L.window n (entries.getD []))
    (message : Option String) : Bounded L id { s with
      limiter := update s.limiter (L.key a.username) entries
      attempts := s.setPhase i a (.done message) } := by
  set s' : LoginState := { s with
    limiter := update s.limiter (L.key a.username) entries
    attempts := s.setPhase i a (.done message) }
  have hmove : Moves L s s' i a { a with phase := .done message } :=
    ⟨ha, rfl, rfl, rfl, fun u hu => congrArg (getD · []) (entries_update_of_ne hu _)⟩
  by_cases hon : L.on id a
  · have hentries : s'.entries L a.username = entries.getD [] :=
      congrArg (getD · []) (update_self ..)
    refine h.own hmove hon (fun j b => h.not_inFlight ⟨ha, hon⟩ hflight) h.le_now h.windows ?_ ?_
      nofun
    · rw [hentries]
      exact fun n hn => le_succ_of_le (hcovered hon n hn)
    · rw [hentries]
      exact fun _ => hcovered hon
  · exact h.other hmove hon rfl

theorem Bounded.recordFailure (h : Bounded L id s) (ha : s.attempts i = some a) {error : AuthError}
    (hfailed : a.phase = .failed error) (message : Option String) :
    Bounded L id { s with
      limiter := recordFailure L.window s.now s.limiter (L.key a.username)
      attempts := s.setPhase i a (.done message) } := by
  refine h.finish ha (.inr (.inl ⟨error, hfailed⟩)) (fun hon n hn => ?_) message
  rw [getD_some, live_append, live_keep hn, live_singleton]
  split_ifs with hcounts
  · exact h.covered i a ⟨ha, hon⟩ n hn
  · rw [live_eq_zero h.le_now (Nat.le_of_not_lt hcounts)]
    exact zero_le _

theorem Bounded.clear (h : Bounded L id s) (ha : s.attempts i = some a)
    (hsucceeded : a.phase = .succeeded) (hzero : live L.window s.now (s.entries L a.username) = 0)
    (message : Option String) :
    Bounded L id { s with
      limiter := clear s.limiter (L.key a.username)
      attempts := s.setPhase i a (.done message) } := by
  have hflight : a.InFlight := .inr (.inr hsucceeded)
  refine h.finish ha hflight (fun hon n hn => ?_) message
  calc live L.window n (failures id s.log)
    _ ≤ live L.window n (s.entries L a.username) :=
      h.settled_of_alone ⟨ha, hon⟩ (fun j b => h.not_inFlight ⟨ha, hon⟩ hflight)
        (by simp [hsucceeded]) hn
    _ ≤ live L.window s.now (s.entries L a.username) := live_anti hn _
    _ ≤ _ := Nat.le_trans (Nat.le_of_eq hzero) (zero_le _)

theorem Bounded.step (h : Bounded L id s) (hmax : 0 < L.maxAttempts) {e : LoginEvent}
    (hok : Orderly L s e) : Bounded L id (loginStep L s e) := by
  cases e with
  | arrive =>
    rw [loginStep]
    split
    · rename_i hnone
      split_ifs
      · exact h.arrive hnone fun j b hb hid => hok j b id hb.1 hb.2 hid
      · exact h
    · exact h
  | check =>
    rw [loginStep]
    split
    · rename_i username password ha
      refine h.check hmax ha rfl fun hon j b hj hb => ?_
      exact hok j _ b id ha hb.1 hj.symm hon hb.2
    · exact h
  | verify =>
    rw [loginStep]
    split
    · rename_i username password ha
      exact h.verify ha rfl
    · exact h
  | settle =>
    rw [loginStep]
    split
    · rename_i username password error ha
      exact h.recordFailure ha rfl _
    · rename_i username password ha
      exact h.clear ha rfl (hok _ ha rfl) _
    · exact h
  | pass d => exact h.pass d

def LoginState.initial : LoginState := ⟨fun _ => none, fun _ => none, 0, []⟩

theorem Bounded.initial (L : Login) (id : ℕ) : Bounded L id .initial where
  le_now _ ht := nomatch ht
  windows _ := zero_le _
  origin h := absurd rfl h
  spelled := nofun
  alone := nofun
  covered := nofun
  settled _ := nofun
  credit := nofun

private theorem length_inWindow (L : Login) (id T : ℕ) (log : List Verification) :
    (inWindow L id T log).length = within L.window T (failures id log) +
      ((inWindow L id T log).filter Verification.success).length := by
  have hfailed : within L.window T (failures id log) =
      ((inWindow L id T log).filter fun v => !v.success).length := by
    rw [within, failures, countP_map, countP_filter, inWindow, List.filter_filter,
      ← countP_eq_length_filter]
    refine countP_congr fun v _ => ?_
    simp only [comp_apply, Bool.and_eq_true, decide_eq_true_eq, Bool.not_eq_true']
    tauto
  rw [hfailed, Nat.add_comm]
  exact length_eq_length_filter_add _

/-- In any window, an account has at most `maxAttempts` verifications beside the successful ones, as
long as its attempts are orderly. -/
theorem verifications_le_of_reached (L : Login) (hmax : 0 < L.maxAttempts) {s : LoginState}
    (h : Machine.Reached (loginStep L) (Orderly L) .initial s) (id T : ℕ) :
    (inWindow L id T s.log).length ≤
      L.maxAttempts + ((inWindow L id T s.log).filter Verification.success).length := by
  have hbounded : Bounded L id s := h.inv (Bounded.initial L id) fun _ _ hs hok => hs.step hmax hok
  rw [length_inWindow]
  exact Nat.add_le_add_right (hbounded.windows T) _

/-- A database that does not tell upper from lower case, with one account, and the limits of
`LoginLimiter::default`. -/
def caseBlind : Login where
  accounts := [⟨1, "ada", true, some "right"⟩]
  sameText a b := a.map Char.toLower = b.map Char.toLower
  ip := "192.0.2.7"
  maxAttempts := 10
  window := 900

theorem verifications_le_of_reached_failed :
    ∃ s, Machine.Reached (loginStep caseBlind) (Orderly caseBlind) .initial s ∧
      (inWindow caseBlind 1 0 s.log).length = 1 ∧
      (inWindow caseBlind 1 0 s.log).length ≤
        10 + ((inWindow caseBlind 1 0 s.log).filter Verification.success).length := by
  let s₁ := loginStep caseBlind .initial (.arrive 0 true "ada" "wrong")
  let s₃ := loginStep caseBlind (loginStep caseBlind s₁ (.check 0)) (.verify 0)
  have harrive : Orderly caseBlind .initial (.arrive 0 true "ada" "wrong") := nofun
  have hcheck : Orderly caseBlind s₁ (.check 0) := fun j _ b _ _ hb hj =>
    nomatch (hb.symm.trans (update_of_ne hj.symm _ _))
  have hsettle : Orderly caseBlind s₃ (.settle 0) := by
    intro a ha hphase
    cases ha
    cases hphase
  have h₀ : Machine.Reached (loginStep caseBlind) (Orderly caseBlind) .initial .initial := .start
  have h₃ : Machine.Reached (loginStep caseBlind) (Orderly caseBlind) .initial s₃ :=
    .next (.next (.next h₀ harrive) hcheck) trivial
  have h₄ := h₃.next hsettle
  exact ⟨_, h₄, by decide +kernel, verifications_le_of_reached caseBlind (by decide) h₄ 1 0⟩

/-- The verifications of account `id` within the window that begins at `T` are too many after
a run. -/
abbrev Exceeds (L : Login) (id T : ℕ) (run : List LoginEvent) : Prop :=
  L.maxAttempts + ((inWindow L id T (run.foldl (loginStep L) .initial).log).filter
    Verification.success).length < (inWindow L id T (run.foldl (loginStep L) .initial).log).length

def attempt (username password : String) (i : ℕ) : List LoginEvent :=
  [.arrive i true username.toList password.toList, .check i, .verify i, .settle i]

def respelled : List LoginEvent :=
  (range 10).flatMap (attempt "ada" "wrong") ++ attempt "Ada" "wrong" 10

def overlapping : List LoginEvent :=
  ((range 11).flatMap fun i => [.arrive i true "ada" "wrong", .check i]) ++
    (range 11).flatMap fun i => [.verify i, .settle i]

def forgotten : List LoginEvent :=
  (range 9).flatMap (attempt "ada" "wrong") ++ attempt "ada" "right" 9 ++
    ((range 10).map (10 + ·)).flatMap (attempt "ada" "wrong")

/-- Another spelling of the name, attempts at the same time, and a success in between. -/
theorem verifications_exceed :
    Exceeds caseBlind 1 0 respelled ∧ Exceeds caseBlind 1 0 overlapping ∧
      Exceeds caseBlind 1 0 forgotten := by
  refine ⟨?_, ?_, ?_⟩
  · decide +kernel
  · decide +kernel
  · decide +kernel

end Abyssal.Auth
