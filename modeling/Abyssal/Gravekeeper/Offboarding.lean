import Abyssal.Gravekeeper.Injection
import Abyssal.Text.Layout

/-!
# Offboarding an account and undoing it

`offboard` takes the parent out of an account's name by splitting it at its first comma, escaped or
not. Its snapshot leaves out whether the account was enabled, and `undo_offboard` enables it in any
case. The directory is the one account that the scripts are about. Its commands fail for a name that
is not the account's, and so does a script whose names are not read as they are meant.

## Main results

* `restores_iff`: when an account that was offboarded comes back as it was.
* `not_restores_of_comma_and_of_disabled`: two accounts that do not.
-/

namespace Abyssal.Gravekeeper.Offboarding

open Option List Prod Text PowerShell

def splitParent : Text → Bool → Text × Option Text
  | [], _ => ([], none)
  | c :: dn, true => ((splitParent dn false).map (c :: ·) id)
  | c :: dn, false =>
    if c = ',' then ([], some dn) else ((splitParent dn (c = '\\')).map (c :: ·) id)

def rdn (dn : Text) : Text := (splitParent dn false).1

def parent (dn : Text) : Option Text := (splitParent dn false).2

structure Account where
  dn : Text
  enabled : Bool
  groups : List Text
  builtIn : Bool
  adminCount : Bool

/-! ### The directory's commands -/

namespace Account

variable (a : Account) (identity : Text)

/-- `Disable-ADAccount` and `Enable-ADAccount`. -/
def setEnabled (enabled : Bool) : Option Account :=
  if identity = a.dn then some { a with enabled := enabled } else none

/-- `Remove-ADGroupMember`. -/
def removeFrom (group : Text) : Option Account :=
  if identity = a.dn then some { a with groups := a.groups.filter (· ≠ group) } else none

/-- `Add-ADGroupMember`. -/
def addTo (group : Text) : Option Account :=
  if identity = a.dn then some { a with groups := a.groups ++ [group] } else none

/-- `Move-ADObject`. -/
def moveTo (target : Text) : Option Account :=
  if identity = a.dn then some { a with dn := rdn a.dn ++ ',' :: target } else none

def refused (allowPrivileged : Bool) : Bool := a.builtIn || (a.adminCount && !allowPrivileged)

end Account

/-! ### The scripts -/

/-- `($dn -split ',',2)[0]`. -/
def leaf (dn : Text) : Text := ((splitOnce ',' dn).map fst).getD dn

/-- `($dn -split ',',2)[1]`, which is null without a comma. -/
def rest (dn : Text) : Option Text := (splitOnce ',' dn).map snd

structure Snapshot where
  originalOu : Option Text
  groups : List Text
  newDn : Text

/-- The loop over the groups to leave. A failure is caught. -/
def stripGroups (dn : Text) : List Text → Account → Account × List Text
  | [], a => (a, [])
  | g :: groups, a =>
    match a.removeFrom dn g with
    | some a => (stripGroups dn groups a).map id (g :: ·)
    | none => stripGroups dn groups a

/-- The loop over the groups to join again. -/
def joinGroups (dn : Text) : List Text → Account → Account
  | [], a => a
  | g :: groups, a => joinGroups dn groups ((a.addTo dn g).getD a)

def runOffboard (dn disabled : Text) (allowPrivileged : Bool) (a : Account) :
    Option (Account × Snapshot) :=
  if dn ≠ a.dn ∨ a.refused allowPrivileged then none
  else do
    let memberOf := a.groups
    let a ← a.setEnabled dn false
    let (a, removed) := stripGroups dn memberOf a
    let a ← a.moveTo dn disabled
    return (a, ⟨rest dn, removed, leaf dn ++ ',' :: disabled⟩)

def runUndoOffboard (dn origOu : Text) (groups : List Text) (allowPrivileged : Bool)
    (a : Account) : Option Account :=
  if dn ≠ a.dn ∨ a.refused allowPrivileged then none
  else do
    let a ← a.moveTo dn origOu
    let newDn := leaf dn ++ ',' :: origOu
    (joinGroups newDn groups a).setEnabled newDn true

/-- An operation: its checks, then what its script does if it is read as it is meant. -/
def carryOut {α : Type} (script : Outcome) (run : Option α) : Option α :=
  match script with
  | .error _ => none
  | .ok parts => if tokens (render parts) = reading parts then run else none

/-- The undoing of a snapshot. The control plane keeps a missing parent as an empty text. -/
def undo (domainDns upn : Text) (allowPrivileged : Bool) (snapshot : Snapshot) (a : Account) :
    Option Account :=
  carryOut (undoOffboard domainDns upn snapshot.newDn (snapshot.originalOu.getD []) snapshot.groups
      allowPrivileged)
    (runUndoOffboard snapshot.newDn (snapshot.originalOu.getD []) snapshot.groups allowPrivileged a)

def Restores (domainDns upn disabled : Text) (allow allow' : Bool) (a : Account) : Prop :=
  ∃ moved snapshot, carryOut (offboard domainDns upn a.dn disabled allow)
      (runOffboard a.dn disabled allow a) = some (moved, snapshot) ∧
    snapshot.originalOu = parent a.dn ∧ snapshot.newDn = moved.dn ∧
    ∃ back, undo domainDns upn allow' snapshot moved = some back ∧ back.dn = a.dn ∧
      (∀ g, g ∈ back.groups ↔ g ∈ a.groups) ∧ back.enabled = a.enabled

/-! ### Names -/

variable {dn p : Text}

theorem splitParent_some {r : Text} {escaped : Bool} (h : splitParent dn escaped = (r, some p)) :
    dn = r ++ ',' :: p ∧ ∀ q, splitParent (r ++ ',' :: q) escaped = (r, some q) := by
  induction dn generalizing r escaped with
  | nil => cases h
  | cons c _ ih =>
    cases escaped with
    | true =>
      obtain ⟨hr, hp⟩ := mk.inj h
      obtain ⟨hdn, hq⟩ := ih (Prod.ext rfl hp)
      subst hr
      exact ⟨congrArg (c :: ·) hdn, fun q => congrArg (map (c :: ·) id) (hq q)⟩
    | false =>
      rw [splitParent] at h
      split_ifs at h with hc
      · obtain ⟨rfl, hp⟩ := mk.inj h
        rw [hc, some.inj hp]
        exact ⟨rfl, fun q => if_pos rfl⟩
      · obtain ⟨hr, hp⟩ := mk.inj h
        obtain ⟨hdn, hq⟩ := ih (Prod.ext rfl hp)
        subst hr
        refine ⟨congrArg (c :: ·) hdn, fun q => (if_neg hc).trans ?_⟩
        exact congrArg (map (c :: ·) id) (hq q)

theorem splitOnce_of_parent (hcomma : ',' ∉ rdn dn) (hp : parent dn = some p) :
    dn = rdn dn ++ ',' :: p ∧ splitOnce ',' dn = some (rdn dn, p) := by
  have hdn := (splitParent_some (Prod.ext rfl hp : splitParent dn false = (rdn dn, some p))).1
  refine ⟨hdn, ?_⟩
  exact (congrArg _ hdn).trans (splitOnce_append_cons hcomma p)

theorem rdn_moved (hp : parent dn = some p) (target : Text) :
    rdn (rdn dn ++ ',' :: target) = rdn dn := by
  have h := (splitParent_some (Prod.ext rfl hp : splitParent dn false = (rdn dn, some p))).2 target
  rw [rdn, h]

private theorem leaf_eq_takeWhile (dn : Text) : leaf dn = dn.takeWhile (· ≠ ',') := by
  rw [leaf, splitOnce]
  split
  · rename_i hdrop
    have hall := takeWhile_append_dropWhile (p := (· ≠ ',')) (l := dn)
    rw [hdrop, append_nil] at hall
    exact hall.symm
  · rfl

theorem comma_not_mem_leaf (dn : Text) : ',' ∉ leaf dn := by
  rw [leaf_eq_takeWhile]
  intro h
  simpa using mem_takeWhile_imp h

/-! ### The runs -/

variable {a : Account} {domainDns upn disabled : Text} {allow allow' : Bool}

theorem stripGroups_eq (groups : List Text) (a : Account) :
    ∃ left, stripGroups a.dn groups a = ({ a with groups := left }, groups) ∧
      ∀ g ∈ left, g ∈ a.groups ∧ g ∉ groups := by
  induction groups generalizing a with
  | nil => exact ⟨a.groups, rfl, fun g hg => ⟨hg, not_mem_nil⟩⟩
  | cons g groups ih =>
    obtain ⟨left, hstrip, hleft⟩ := ih { a with groups := a.groups.filter (· ≠ g) }
    refine ⟨left, ?_, fun g' hg' => ?_⟩
    · rw [stripGroups, Account.removeFrom, if_pos rfl]
      exact congrArg (map id (g :: ·)) hstrip
    · obtain ⟨hmem, hrest⟩ := hleft g' hg'
      obtain ⟨hmem, hne⟩ := mem_filter.1 hmem
      exact ⟨hmem, not_mem_cons_of_ne_of_not_mem (of_decide_eq_true hne) hrest⟩

private theorem joinGroups_eq (groups : List Text) (a : Account) :
    joinGroups a.dn groups a = { a with groups := a.groups ++ groups } := by
  induction groups generalizing a with
  | nil => simp [joinGroups]
  | cons g groups ih =>
    rw [joinGroups, Account.addTo, if_pos rfl]
    exact (ih { a with groups := a.groups ++ [g] }).trans (by simp)

theorem runOffboard_eq (hguard : a.refused allow = false) :
    runOffboard a.dn disabled allow a =
      some ({ a with dn := rdn a.dn ++ ',' :: disabled, enabled := false, groups := [] },
        ⟨rest a.dn, a.groups, leaf a.dn ++ ',' :: disabled⟩) := by
  obtain ⟨left, hstrip, hleft⟩ := stripGroups_eq a.groups { a with enabled := false }
  have hnil : left = [] := eq_nil_iff_forall_not_mem.2 fun g hg =>
    (hleft g hg).2 (hleft g hg).1
  simp only at hstrip
  simp [runOffboard, hguard, Account.setEnabled, hstrip, hnil, Account.moveTo]

theorem runUndoOffboard_eq (a : Account) (target : Text) (groups : List Text)
    (hguard : a.refused allow = false) (hleaf : leaf a.dn = rdn a.dn) :
    runUndoOffboard a.dn target groups allow a =
      some { a with dn := rdn a.dn ++ ',' :: target, enabled := true,
                    groups := a.groups ++ groups } := by
  have hjoin := joinGroups_eq groups { a with dn := rdn a.dn ++ ',' :: target }
  simp only at hjoin
  simp [runUndoOffboard, hguard, Account.moveTo, hleaf, hjoin, Account.setEnabled]

variable {target : Text}

theorem validateWrite_eq_ok_iff :
    validateWrite domainDns upn target = .ok () ↔
      isValidHostname domainDns ∧ isValidUserPrincipalName upn ∧ isValidLdapDn target := by
  rw [validateWrite, ensure_bind_eq_ok, ensure_bind_eq_ok, ensure]
  split_ifs with h
  · simp [h]
  · simp [h]

variable {ou : Text} {groups : List Text}

theorem undoOffboard_eq_ok_iff :
    (∃ parts, undoOffboard domainDns upn target ou groups allow = .ok parts) ↔
      validateWrite domainDns upn target = .ok () ∧ isValidLdapDn ou ∧
        ∀ g ∈ groups, isValidLdapDn g := by
  constructor
  · rintro ⟨_, h⟩
    obtain ⟨_, hwrite, h⟩ := bind_eq_ok.1 h
    obtain ⟨hou, h⟩ := ensure_bind_eq_ok.1 h
    obtain ⟨_, hgroups, -⟩ := bind_eq_ok.1 h
    refine ⟨hwrite, hou, fun g hg => ?_⟩
    have hensure := forM_eq_ok hgroups g hg
    rw [ensure] at hensure
    split_ifs at hensure with hvalid
    exact hvalid
  · rintro ⟨hwrite, hou, hgroups⟩
    exact ⟨_, bind_eq_ok.2 ⟨(), hwrite, ensure_bind_eq_ok.2 ⟨hou,
      bind_eq_ok.2 ⟨(), forM_of_forall fun g hg => ensure_of (hgroups g hg), rfl⟩⟩⟩⟩

variable {back : Account}

theorem carryOut_eq_some_iff {α : Type} {script : Outcome} {run : Option α} {x : α} :
    carryOut script run = some x ↔
      ∃ parts, script = .ok parts ∧ tokens (render parts) = reading parts ∧ run = some x := by
  cases script with
  | error => exact iff_of_false nofun fun ⟨_, hparts, _⟩ => nomatch hparts
  | ok => simp [carryOut]

private theorem tokens_offboard_iff {parts : List Part}
    (h : offboard domainDns upn dn disabled allow = .ok parts) :
    tokens (render parts) = reading parts ↔ Plain dn ∧ Plain disabled := by
  have hscript : (Operation.offboard domainDns upn dn disabled allow).script id = .ok parts := h
  rw [(Operation.quoted_script hscript).tokens_iff, Operation.freeTexts]
  simp

theorem enabled_of_runUndoOffboard
    (h : runUndoOffboard dn ou groups allow a = some back) : back.enabled := by
  unfold runUndoOffboard at h
  split_ifs at h
  obtain ⟨_, -, h⟩ := bind_eq_some_iff.1 h
  obtain ⟨-, h⟩ := ite_none_right_eq_some.1 h
  rw [← some.inj h]

/-- An offboarding is undone exactly when no name has typographic quotes in it, the account's own
component has no comma in it, the account was enabled, and the names in the request of the undoing
are acceptable. -/
theorem restores_iff {parts : List Part}
    (hparts : offboard domainDns upn a.dn disabled allow = .ok parts)
    (hguard : a.refused allow = false) (hguard' : a.refused allow' = false) :
    Restores domainDns upn disabled allow allow' a ↔
      Plain a.dn ∧ Plain disabled ∧ ',' ∉ rdn a.dn ∧ a.enabled ∧
        isValidLdapDn (rdn a.dn ++ ',' :: disabled) ∧ isValidLdapDn ((parent a.dn).getD []) ∧
        ∀ g ∈ a.groups, isValidLdapDn g ∧ Plain g := by
  obtain ⟨_, hwrite, -⟩ := bind_eq_ok.1 hparts
  obtain ⟨hdomain, hupn, -⟩ := validateWrite_eq_ok_iff.1 hwrite
  constructor
  · rintro ⟨_, _, hrun, hou, hdn, _, hback, -, -, henabled⟩
    obtain ⟨_, hscript, hread, hrun⟩ := carryOut_eq_some_iff.1 hrun
    obtain ⟨hplain, hdisabled⟩ := (tokens_offboard_iff hscript).1 hread
    rw [runOffboard_eq hguard] at hrun
    cases hrun
    have hleaf : leaf a.dn = rdn a.dn := append_cancel_right hdn
    obtain ⟨_, hscript', hread', hback⟩ := carryOut_eq_some_iff.1 hback
    have hplain' := (quoted_undoOffboard hscript').tokens_iff.1 hread'
    obtain ⟨hwrite', hvalid, hgroups⟩ := undoOffboard_eq_ok_iff.1 ⟨_, hscript'⟩
    obtain ⟨-, -, htarget⟩ := validateWrite_eq_ok_iff.1 hwrite'
    refine ⟨hplain, hdisabled, hleaf ▸ comma_not_mem_leaf a.dn, ?_, hleaf ▸ htarget, hou ▸ hvalid,
      fun g hg => ⟨hgroups g hg, hplain' g (by simp [hg])⟩⟩
    exact henabled.symm.trans (enabled_of_runUndoOffboard hback)
  · rintro ⟨hplain, hdisabled, hcomma, henabled, htarget, hvalid, hgroups⟩
    obtain ⟨p, hp⟩ : ∃ p, parent a.dn = some p := by
      cases hp : parent a.dn with
      | some p => exact ⟨p, rfl⟩
      | none =>
        rw [hp] at hvalid
        cases hvalid
    obtain ⟨hdn, hsplit⟩ := splitOnce_of_parent hcomma hp
    have hleaf : leaf a.dn = rdn a.dn := by rw [leaf, hsplit]; rfl
    have hrest : rest a.dn = some p := by rw [rest, hsplit]; rfl
    have hleaf' : leaf (rdn a.dn ++ ',' :: disabled) = rdn (rdn a.dn ++ ',' :: disabled) := by
      rw [rdn_moved hp, leaf, splitOnce_append_cons hcomma]
      rfl
    rw [hp] at hvalid
    obtain ⟨_, hundo⟩ := undoOffboard_eq_ok_iff.2
      ⟨validateWrite_eq_ok_iff.2 ⟨hdomain, hupn, htarget⟩, hvalid, fun g hg => (hgroups g hg).1⟩
    have hread : AllPlain ((rdn a.dn ++ ',' :: disabled) :: p :: a.groups) := by
      have hboth : Plain (rdn a.dn ++ ',' :: p) := by rwa [← hdn]
      obtain ⟨hrdn, hparent⟩ := forall_mem_append.1 hboth
      exact (allPlain_cons _ _).2 ⟨forall_mem_append.2 ⟨hrdn, forall_mem_cons.2 ⟨rfl, hdisabled⟩⟩,
        (allPlain_cons _ _).2 ⟨(forall_mem_cons.1 hparent).2, fun g hg => (hgroups g hg).2⟩⟩
    refine ⟨_, _, carryOut_eq_some_iff.2 ⟨_, hparts,
        (tokens_offboard_iff hparts).2 ⟨hplain, hdisabled⟩, runOffboard_eq hguard⟩,
      hrest.trans hp.symm, by rw [hleaf], { a with enabled := true }, ?_, rfl, fun _ => .rfl,
      henabled.symm⟩
    rw [hleaf, hrest]
    refine carryOut_eq_some_iff.2 ⟨_, hundo, (quoted_undoOffboard hundo).tokens_iff.2 hread, ?_⟩
    refine (runUndoOffboard_eq { a with dn := _, enabled := false, groups := [] } p a.groups
      hguard' hleaf').trans ?_
    simp [rdn_moved hp, ← hdn]

def ann : Account :=
  ⟨"CN=Ann,OU=Staff,DC=corp", true, ["CN=Admins,DC=corp"], false, false⟩

def doe : Account :=
  ⟨"CN=Doe\\, Jo,OU=Staff,DC=corp", true, [], false, false⟩

def corp : Text := "corp.example"

def service : Text := "svc@corp.example"

def left : Text := "OU=Left,DC=corp"

theorem restores_iff_ann : Restores corp service left false false ann := by
  have hwrite : validateWrite corp service ann.dn = .ok () :=
    validateWrite_eq_ok_iff.2 ⟨by decide +kernel, by decide +kernel, by decide +kernel⟩
  have hou : isValidLdapDn left := by decide +kernel
  exact (restores_iff (bind_eq_ok.2 ⟨(), hwrite, ensure_bind_eq_ok.2 ⟨hou, rfl⟩⟩) rfl rfl).2
    (by decide +kernel)

/-- The parent of a name with an escaped comma is cut inside the name, and a disabled account is
enabled by undoing. -/
theorem not_restores_of_comma_and_of_disabled :
    ¬ Restores corp service left false false doe ∧
      ¬ Restores corp service left false false { ann with enabled := false } := by
  constructor
  · rintro ⟨moved, snapshot, hrun, hou, -⟩
    obtain ⟨_, -, -, hrun⟩ := carryOut_eq_some_iff.1 hrun
    rw [runOffboard_eq rfl] at hrun
    cases hrun
    exact absurd hou (by decide +kernel)
  · rintro ⟨_, _, -, -, -, _, hback, -, -, henabled⟩
    obtain ⟨_, -, -, hback⟩ := carryOut_eq_some_iff.1 hback
    have htrue := enabled_of_runUndoOffboard hback
    cases henabled.symm.trans htrue

end Abyssal.Gravekeeper.Offboarding
