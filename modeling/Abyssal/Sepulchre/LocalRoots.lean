import Abyssal.Text.Paths

/-!
# Local directories that connections may use

A root is refused if it is one of the forbidden directories as it is written. What it resolves to,
what it contains and what it lies in is not looked at.

## Main results

* `localRoots_apart_iff`: which roots are apart.
-/

namespace Abyssal.Sepulchre

open Text List

def forbidden : List Text :=
  ["/", "/etc", "/proc", "/sys", "/dev", "/var/run",
    "/run", "/var/run/docker.sock"]

def isAbsolute (path : Text) : Bool := path.head? = some '/'

/-- `path == Path::new(f)` for one of the forbidden directories. -/
def isForbidden (path : Text) : Bool := forbidden.any (components · = components path)

def listed (raw : Text) : List Text :=
  ((Text.splitOn ',' raw).map trim).filter (· ≠ [])

/-- `local_roots_from_env`, for what the two variables are set to. -/
def localRootsFromEnv (roots backupDestination : Option Text) : List Text :=
  (listed (roots.getD (backupDestination.getD []))).filter fun path =>
    isAbsolute path && !isForbidden path

def containingRoot (path : Text) (roots : List Text) : Option (Text × List Text) :=
  roots.findSome? fun root =>
    ((components root).isPrefixOf? (components path)).map fun relative => (root, relative)

/-- What `LocalBackend::new` checks before it opens a directory. -/
def isAllowed (path : Text) (roots : List Text) : Bool :=
  isAbsolute path && (containingRoot path roots).any (!·.2.contains parentName)

/-- It is one of the directories other than the root, above one or beneath one. -/
def Meets (names : List Text) : Prop :=
  ∃ f ∈ forbidden, components f ≠ [] ∧ (components f <+: names ∨ names <+: components f)

variable {path : Text} {parts names : List Text}

private theorem foldl_descend_of_not_mem (h : parentName ∉ parts) (above : List Text) :
    parts.foldl descend above = above ++ parts := by
  induction parts generalizing above with
  | nil => exact (append_nil _).symm
  | cons part parts ih =>
    rw [mem_cons, not_or] at h
    rw [foldl_cons, descend, if_neg (Ne.symm h.1), ih h.2, append_assoc, singleton_append]

private theorem resolve_of_isAllowed {roots : List Text} (h : isAllowed path roots) :
    ∃ root ∈ roots, ∃ relative,
      resolve (components path) = resolve (components root) ++ relative := by
  obtain ⟨⟨root, relative⟩, hroot, hparent⟩ :=
    (Option.any_eq_true _ _).1 (Bool.and_eq_true_iff.1 h).2
  obtain ⟨root', hmem, hpair⟩ := exists_of_findSome?_eq_some hroot
  obtain ⟨relative', hprefix, heq⟩ := Option.map_eq_some_iff.1 hpair
  cases heq
  have hsplit := isPrefixOf?_eq_some_iff_append_eq.1 hprefix
  refine ⟨root, hmem, relative, ?_⟩
  rw [← hsplit, resolve, foldl_append, foldl_descend_of_not_mem (by simpa using hparent), resolve]

/-- No root has to do with a forbidden directory, and no connection leads into one, exactly if every
absolute entry either names such a directory as it is or resolves to one apart from them. -/
theorem localRoots_apart_iff (roots backupDestination : Option Text) :
    ((∀ root ∈ localRootsFromEnv roots backupDestination, ¬ Meets (resolve (components root))) ∧
      ∀ path, isAllowed path (localRootsFromEnv roots backupDestination) →
        ∀ f ∈ forbidden, components f ≠ [] → ¬ components f <+: resolve (components path)) ↔
    ∀ path ∈ listed (roots.getD (backupDestination.getD [])), isAbsolute path →
      isForbidden path ∨ ¬ Meets (resolve (components path)) := by
  constructor
  · rintro ⟨h, -⟩ path hpath habsolute
    refine or_iff_not_imp_left.2 fun hforbidden => h path (mem_filter.2 ⟨hpath, ?_⟩)
    simp [habsolute, hforbidden]
  · intro h
    have hroots : ∀ root ∈ localRootsFromEnv roots backupDestination,
        ¬ Meets (resolve (components root)) := by
      intro root hroot
      obtain ⟨hmem, hok⟩ := mem_filter.1 hroot
      rw [Bool.and_eq_true, Bool.not_eq_true'] at hok
      exact (h root hmem hok.1).resolve_left (by simp [hok.2])
    refine ⟨hroots, fun path hpath f hf hne hinside => ?_⟩
    obtain ⟨root, hroot, relative, heq⟩ := resolve_of_isAllowed hpath
    refine hroots root hroot ⟨f, hf, hne, ?_⟩
    exact prefix_or_prefix_of_prefix hinside (heq ▸ prefix_append ..)

/-- A directory above a forbidden one, one beneath, and another spelling are accepted. -/
theorem localRootsFromEnv_var :
    localRootsFromEnv (some "/var,/etc/ssl,/srv/../etc") none =
        ["/var".toList, "/etc/ssl".toList, "/srv/../etc".toList] ∧
      isAllowed "/var/run/docker.sock" ["/var"] ∧
      resolve (components "/srv/../etc") = ["etc".toList] := by
  decide

end Abyssal.Sepulchre
