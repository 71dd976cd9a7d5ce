import Abyssal.Sepulchre.Rendering
import Abyssal.Text.Paths

/-!
# The credentials of a mount

The credentials of a mount are written as root, so their path has to lie in one directory. Both
the control plane and the agent compare the beginning of the path, and neither looks for `..`.

## Main results

* `inside_iff_leadsBack`: which paths stay inside.
-/

namespace Abyssal.Sepulchre

open Text List

def mountCredentialsDir : Text := "/etc/sepulchre/mounts"

/-- The test that both sides make. -/
def beginsInDir (path : Text) : Bool := (mountCredentialsDir ++ ['/']).isPrefixOf path

def requireMountCredentialsPath (path : Text) : Except String Text := do
  let _ ← requireAbsolutePath path
  if beginsInDir path then return path
  else throw (String.ofList ("mount credentials must live under " ++ mountCredentialsDir ++
    ": " ++ path))

/-- What the agent runs. -/
inductive Program where
  | mkdir (dir : Text)
  | chmod (mode : String) (path : Text)
  | write (path contents : Text)
  deriving DecidableEq

/-- What `write_mount_credentials` runs one after the other, until one fails. -/
def writeMountCredentials (path contents : Text) : Except String (List Program) :=
  if beginsInDir path then
    .ok [.mkdir mountCredentialsDir, .chmod "700" mountCredentialsDir, .write path contents,
      .chmod "600" path]
  else .error (String.ofList ("refusing to write outside " ++ mountCredentialsDir ++
    ": " ++ path))

/-- A path leads to something in the directory. -/
def Inside (path : Text) : Prop :=
  components mountCredentialsDir <+: resolve (components path) ∧
    components mountCredentialsDir ≠ resolve (components path)

instance (path : Text) : Decidable (Inside path) := inferInstanceAs (Decidable (_ ∧ _))

/-- What stands after the directory leads to something in it: where it leads out, it leads back
by the same names. -/
def LeadsBack (rest : Text) : Prop :=
  let way := relative (components rest)
  let dir := components mountCredentialsDir
  let left := dir.drop (dir.length - way.1)
  left <+: way.2 ∧ left ≠ way.2

private theorem inside_append_iff (rest : Text) :
    Inside (mountCredentialsDir ++ '/' :: rest) ↔ LeadsBack rest := by
  have hdir : (components mountCredentialsDir).foldl descend [] =
      components mountCredentialsDir := by
    decide
  rw [Inside, components_append_slash, resolve, foldl_append, hdir, foldl_descend, LeadsBack]
  generalize components mountCredentialsDir = dir
  generalize hway : dir.length - (relative (components rest)).1 = n
  nth_rewrite 1 3 [← take_append_drop n dir]
  rw [prefix_append_right_inj, Ne, append_cancel_left_eq]

/-- What the control plane lets through, the agent writes, and it is in the directory just when
the path leads back there. -/
theorem inside_iff_leadsBack (path contents : Text)
    (h : requireMountCredentialsPath path = .ok path) :
    ∃ programs, writeMountCredentials path contents = .ok programs ∧
      ((∀ file text, .write file text ∈ programs → Inside file) ↔
        LeadsBack (path.drop (mountCredentialsDir.length + 1))) := by
  obtain ⟨-, -, h⟩ := bind_eq_ok.1 h
  have hbegins : beginsInDir path := by
    by_contra hbegins
    rw [if_neg hbegins] at h
    cases h
  refine ⟨_, if_pos hbegins, ?_⟩
  obtain ⟨rest, rfl⟩ := List.isPrefixOf_iff_prefix.1 hbegins
  have hrest : (mountCredentialsDir ++ ['/'] ++ rest).drop (mountCredentialsDir.length + 1) =
      rest :=
    drop_left' (by simp)
  rw [← inside_append_iff]
  simp

theorem inside_iff_leadsBack_nas :
    ∃ programs, writeMountCredentials "/etc/sepulchre/mounts/nas" [] = .ok programs ∧
      ((∀ file text, .write file text ∈ programs → Inside file) ↔ LeadsBack "nas") :=
  inside_iff_leadsBack "/etc/sepulchre/mounts/nas" [] (by decide)

/-- A path to a file outside that both sides let through. -/
def passwdPath : Text := "/etc/sepulchre/mounts/../../passwd"

/-- A path that leaves the directory again passes the checks, and is written. -/
theorem not_inside_of_parent :
    requireMountCredentialsPath passwdPath = .ok passwdPath ∧
      ∃ programs, writeMountCredentials passwdPath [] = .ok programs ∧
        .write passwdPath [] ∈ programs ∧ resolve (components passwdPath) =
          ["etc".toList, "passwd".toList] ∧ ¬Inside passwdPath :=
  ⟨by decide, _, rfl, by decide, by decide, by decide⟩

end Abyssal.Sepulchre
