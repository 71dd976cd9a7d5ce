import Abyssal.Check.Ensure
import Abyssal.Text.Basic

/-!
# Paths in archives

An archive is extracted entry by entry, and the first entry whose path or type is not allowed ends
the extraction. A path that is allowed may have no name in it, like `.`: it leads to the
destination itself. What `unpack_in` of the tar library does is a parameter.

## Main results

* `extractArchive_confined`: where allowed paths lead, and for which entries files are written.
* `resolve_join_curDir`: an allowed path that leads to the destination itself.
-/

namespace Abyssal.Reliquary.Archive

open List

inductive Component where
  | prefixed
  | rootDir
  | curDir
  | parentDir
  | normal (name : Text)
  deriving DecidableEq

abbrev Path := List Component

def isAbsolute (path : Path) : Bool := path.head? = some .rootDir

inductive EntryType where
  | regular
  | directory
  | other (debug : Text)

structure Entry where
  path : Path
  entryType : EntryType

/-! ### Lexical resolution -/

def step : List Text → Component → List Text
  | _, .prefixed => []
  | _, .rootDir => []
  | above, .curDir => above
  | above, .parentDir => above.dropLast
  | above, .normal name => above ++ [name]

def resolve (path : Path) : List Text := path.foldl step []

def join (dest path : Path) : Path := if isAbsolute path then path else dest ++ path

def names (path : Path) : List Text :=
  path.filterMap fun
    | .normal name => some name
    | _ => none

/-! ### Extraction -/

section

variable (display : Path → Text) (dest : Path)

def validateComponent (shown : Text) : Component → Except Text Unit
  | .parentDir => .error ("archive entry escapes its directory: " ++ shown)
  | .prefixed | .rootDir => .error ("archive entry has an absolute/rooted path: " ++ shown)
  | .curDir | .normal _ => .ok ()

def validateEntryPath (path : Path) : Except Text Unit :=
  if isAbsolute path then .error ("archive entry has an absolute path: " ++ display path)
  else path.forM (validateComponent (display path))

def validateEntry (entry : Entry) : Except Text Unit := do
  validateEntryPath display entry.path
  match entry.entryType with
  | .regular | .directory => return
  | .other debug =>
    throw ("archive entry " ++ display entry.path ++ " has disallowed type " ++
      debug ++ " -- refusing to extract")

/-- The files that `unpack_in` writes for an entry, and its error. -/
abbrev UnpackIn := Entry → List (List Text) × Option Text

/-- What the library documents of `unpack_in`: an entry whose path has names only is written where
the path leads from the destination, and one without a name is skipped. -/
structure Unpacks (unpackIn : UnpackIn) : Prop where
  target : ∀ entry, (∀ part ∈ entry.path, part = .curDir ∨ ∃ name, part = .normal name) →
    ∀ file ∈ (unpackIn entry).1, file = resolve (join dest entry.path)
  skips : ∀ entry, names entry.path = [] → (unpackIn entry).1 = []

/-- How the extraction ends, and what it wrote, for which entry. -/
def extractArchive (unpackIn : UnpackIn) :
    List Entry → Except Text Unit × List (Entry × List Text)
  | [] => (.ok (), [])
  | entry :: entries =>
    match validateEntry display entry with
    | .error e => (.error e, [])
    | .ok () =>
      let written := (unpackIn entry).1.map (entry, ·)
      match (unpackIn entry).2 with
      | some e => (.error ("extracting " ++ display entry.path ++ ": " ++ e), written)
      | none =>
        let rest := extractArchive unpackIn entries
        (rest.1, written ++ rest.2)

end

variable {display : Path → Text} {dest path : Path}

private theorem component_of_validate {shown : Text} {part : Component}
    (h : validateComponent shown part = .ok ()) : part = .curDir ∨ ∃ name, part = .normal name := by
  cases part with
  | curDir => exact .inl rfl
  | normal name => exact .inr ⟨name, rfl⟩
  | _ => cases h

private theorem foldl_step (h : ∀ part ∈ path, part = .curDir ∨ ∃ name, part = .normal name)
    (above : List Text) : path.foldl step above = above ++ names path := by
  induction path generalizing above with
  | nil => exact (append_nil _).symm
  | cons part path ih =>
    obtain ⟨hpart, hpath⟩ := forall_mem_cons.1 h
    rw [foldl_cons, ih hpath]
    rcases hpart with rfl | ⟨name, rfl⟩
    · rfl
    · exact append_assoc ..

theorem components_of_validate (h : validateEntryPath display path = .ok ()) :
    ∀ part ∈ path, part = .curDir ∨ ∃ name, part = .normal name := by
  rw [validateEntryPath] at h
  split_ifs at h
  exact fun part hpart => component_of_validate (forM_eq_ok h part hpart)

theorem resolve_join (h : validateEntryPath display path = .ok ()) :
    resolve (join dest path) = resolve dest ++ names path := by
  have hparts := components_of_validate h
  rw [validateEntryPath] at h
  split_ifs at h with habsolute
  rw [join, if_neg habsolute, resolve, foldl_append, foldl_step hparts, resolve]

private theorem mem_names_iff {name : Text} : name ∈ names path ↔ .normal name ∈ path := by
  rw [names, mem_filterMap]
  constructor
  · rintro ⟨part, hpart, hname⟩
    cases part with
    | normal => exact Option.some.inj hname ▸ hpart
    | _ => cases hname
  · exact fun h => ⟨_, h, rfl⟩

private theorem of_mem_extractArchive {unpackIn : UnpackIn} {entries : List Entry}
    {written : Entry × List Text} (h : written ∈ (extractArchive display unpackIn entries).2) :
    validateEntry display written.1 = .ok () ∧ written.2 ∈ (unpackIn written.1).1 := by
  induction entries with
  | nil => cases h
  | cons entry entries ih =>
    rw [extractArchive] at h
    cases hvalid : validateEntry display entry with
    | error =>
      rw [hvalid] at h
      cases h
    | ok =>
      have hhead : written ∈ (unpackIn entry).1.map (entry, ·) →
          validateEntry display written.1 = .ok () ∧ written.2 ∈ (unpackIn written.1).1 := by
        intro hmem
        obtain ⟨file, hfile, rfl⟩ := mem_map.1 hmem
        exact ⟨hvalid, hfile⟩
      simp only [hvalid] at h
      cases hfails : (unpackIn entry).2 with
      | some =>
        rw [hfails] at h
        exact hhead h
      | none =>
        rw [hfails] at h
        exact (mem_append.1 h).elim hhead ih

/-- An allowed path leads to the destination or inside it, strictly if it has a name. Files are
written for allowed entries only and, if `unpack_in` does what is documented, strictly inside. -/
theorem extractArchive_confined (display : Path → Text) (dest : Path) (unpackIn : UnpackIn)
    (entries : List Entry) :
    (∀ path, validateEntryPath display path = .ok () →
        resolve dest <+: resolve (join dest path) ∧
          (resolve (join dest path) ≠ resolve dest ↔ ∃ name, .normal name ∈ path)) ∧
      ∀ written ∈ (extractArchive display unpackIn entries).2,
        validateEntry display written.1 = .ok () ∧
          (Unpacks dest unpackIn → resolve dest <+: written.2 ∧ written.2 ≠ resolve dest) := by
  constructor
  · intro path h
    simp only [resolve_join h, ← mem_names_iff, Ne, append_right_eq_self]
    exact ⟨prefix_append _ _, exists_mem_of_ne_nil _, fun ⟨_, hname⟩ => ne_nil_of_mem hname⟩
  · intro written h
    obtain ⟨hvalid, hfile⟩ := of_mem_extractArchive h
    refine ⟨hvalid, fun hunpacks => ?_⟩
    obtain ⟨_, hpath, -⟩ := bind_eq_ok.1 hvalid
    rw [hunpacks.target _ (components_of_validate hpath) _ hfile, resolve_join hpath]
    refine ⟨prefix_append _ _, fun heq => ?_⟩
    rw [hunpacks.skips _ (append_right_eq_self.1 heq)] at hfile
    cases hfile

/-- `unpack_in`, where it never fails. -/
def unpackAll (dest : Path) : UnpackIn := fun entry =>
  (if names entry.path = [] then [] else [resolve (join dest entry.path)], none)

theorem extractArchive_confined_all :
    [(⟨[.normal ['f']], .regular⟩, [['d'], ['f']])] =
        (extractArchive (fun _ => []) (unpackAll [.rootDir, .normal ['d']])
          [⟨[.normal ['f']], .regular⟩]).2 ∧
      ∀ written ∈ (extractArchive (fun _ => []) (unpackAll [.rootDir, .normal ['d']])
          [⟨[.normal ['f']], .regular⟩]).2, [['d']] <+: written.2 ∧ written.2 ≠ [['d']] := by
  refine ⟨rfl, fun written h =>
    ((extractArchive_confined _ [.rootDir, .normal ['d']] _ _).2 written h).2 ⟨?_, ?_⟩⟩
  · intro entry _ file hfile
    rw [unpackAll] at hfile
    split_ifs at hfile
    · cases hfile
    · exact mem_singleton.1 hfile
  · exact fun entry hnames => if_pos hnames

/-- The path `.` is allowed and leads to the destination itself. -/
theorem resolve_join_curDir :
    validateEntryPath (fun _ => []) [.curDir] = .ok () ∧
      resolve (join [.rootDir, .normal ['d']] [.curDir]) = resolve [.rootDir, .normal ['d']] :=
  ⟨rfl, rfl⟩

end Abyssal.Reliquary.Archive
