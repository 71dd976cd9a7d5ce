import Mathlib.Data.List.Basic
import Abyssal.Table.PartialMap

/-!
# Trees of files with owners

A file has an owner and a content, a directory an owner and named entries. The owner of a file may
rewrite it, and the owner of a directory may do with its entries what it likes, whoever the entries
belong to. In a tree in which nothing belongs to a user, there is nothing that this user can change.
-/

namespace Abyssal.Files

open Option List

/-- A file or a directory. A name that is a symbolic link has what it leads to. -/
inductive Node (U N B : Type) where
  | file (owner : U) (content : B)
  | dir (owner : U) (entries : List (N × Node U N B))

variable {U N B : Type} [DecidableEq N]

namespace Node

def owner : Node U N B → U
  | .file owner _ => owner
  | .dir owner _ => owner

def isDir : Node U N B → Bool
  | .file .. => false
  | .dir .. => true

def content : Node U N B → Option B
  | .file _ content => some content
  | .dir .. => none

def entries : Node U N B → List (N × Node U N B)
  | .file .. => []
  | .dir _ entries => entries

def child (x : N) (n : Node U N B) : Option (Node U N B) := n.entries.lookup x

def follow : List N → Node U N B → Option (Node U N B)
  | [], n => some n
  | x :: p, n => (n.child x).bind (follow p)

def read (p : List N) (n : Node U N B) : Option B := (n.follow p).bind content

def Sealed (v : U) (n : Node U N B) : Prop := ∀ p m, n.follow p = some m → m.owner ≠ v

theorem read_cons (x : N) (p : List N) (n : Node U N B) :
    n.read (x :: p) = (n.child x).bind fun d => d.read p := by
  rw [read, follow, bind_assoc]
  rfl

theorem read_single (u : U) (x : N) (owner : U) (content : B) :
    (Node.dir u [(x, .file owner content)]).read [x] = some content := by
  rw [read_cons, child, entries, lookup_cons, beq_self_eq_true]
  rfl

end Node

def setEntry (x : N) (n : Node U N B) (entries : List (N × Node U N B)) : List (N × Node U N B) :=
  (x, n) :: entries.filter fun e => !(e.1 == x)

/-- The tree after `u` has performed an operation at a path. Missing directories on the way are
made. -/
def place (u : U) (f : Option (Node U N B) → Option (Node U N B)) :
    List N → Option (Node U N B) → Option (Node U N B)
  | [], old => f old
  | x :: p, some (.dir owner entries) =>
    (place u f p (entries.lookup x)).map fun n => .dir owner (setEntry x n entries)
  | _ :: _, some (.file ..) => none
  | x :: p, none => (place u f p none).map fun n => .dir u [(x, n)]

/-- Opening a file for writing, and writing: a file that is there keeps its owner. -/
def rewrite (u : U) (content : B) : Option (Node U N B) → Option (Node U N B)
  | none => some (.file u content)
  | some (.file owner _) => some (.file owner content)
  | some (.dir ..) => none

/-- What `v` can make of a tree: another file of a file of its own, and anything in a directory of
its own. -/
def alter [DecidableEq U] (v : U) : List N → Node U N B → Node U N B → Option (Node U N B)
  | [], new, old =>
    if old.owner = v ∧ new.owner = v ∧ new.isDir = old.isDir then some new else none
  | x :: p, new, .dir owner entries =>
    ((entries.lookup x).bind (alter v p new)).map fun n => .dir owner (setEntry x n entries)
  | _ :: _, _, .file .. => none

/-! ### Entries -/

variable {x y : N}

theorem lookup_filter_ne (hne : x ≠ y) (entries : List (N × Node U N B)) :
    (entries.filter fun e => !(e.1 == y)).lookup x = entries.lookup x := by
  induction entries with
  | nil => rfl
  | cons e _ ih =>
    by_cases hy : e.1 = y
    · have hx : (x == e.1) = false := beq_false_of_ne (hy ▸ hne)
      rw [filter_cons_of_neg (by simp [hy]), ih, lookup_cons, hx]
    · rw [filter_cons_of_pos (by simp [hy]), lookup_cons, lookup_cons, ih]

@[simp] theorem lookup_setEntry_self (x : N) (n : Node U N B) (entries : List (N × Node U N B)) :
    (setEntry x n entries).lookup x = some n := by
  rw [setEntry, lookup_cons, beq_self_eq_true]

theorem lookup_setEntry_of_ne (hne : x ≠ y) (n : Node U N B) (entries : List (N × Node U N B)) :
    (setEntry y n entries).lookup x = entries.lookup x := by
  rw [setEntry, lookup_cons, beq_false_of_ne hne]
  exact lookup_filter_ne hne entries

/-! ### Sealed trees -/

variable {u v : U} {owner : U} {content : B}

theorem sealed_file : (Node.file owner content : Node U N B).Sealed v ↔ owner ≠ v := by
  constructor
  · intro h
    exact h [] _ rfl
  · rintro h (_ | ⟨x, p⟩) m hm
    · cases hm
      exact h
    · exact absurd hm (some_ne_none m).symm

variable {entries : List (N × Node U N B)}

theorem sealed_dir :
    (Node.dir owner entries).Sealed v ↔
      owner ≠ v ∧ ∀ x n, entries.lookup x = some n → n.Sealed v := by
  constructor
  · intro h
    refine ⟨h [] _ rfl, fun x n hn p m hm => h (x :: p) m ?_⟩
    rwa [Node.follow, Node.child, Node.entries, hn]
  · rintro ⟨howner, hentries⟩ (_ | ⟨x, p⟩) m hm
    · cases hm
      exact howner
    · obtain ⟨n, hn, hm⟩ := bind_eq_some_iff.1 hm
      exact hentries x n hn p m hm

variable {n : Node U N B}

theorem sealed_setEntry (h : (Node.dir owner entries).Sealed v) (hn : n.Sealed v) :
    (Node.dir owner (setEntry x n entries)).Sealed v := by
  obtain ⟨howner, hentries⟩ := sealed_dir.1 h
  refine sealed_dir.2 ⟨howner, fun y m hm => ?_⟩
  by_cases hy : y = x
  · subst hy
    rw [lookup_setEntry_self] at hm
    exact some.inj hm ▸ hn
  · rw [lookup_setEntry_of_ne hy] at hm
    exact hentries y m hm

theorem sealed_place {f : Option (Node U N B) → Option (Node U N B)} (hu : u ≠ v)
    (hf : ∀ old new, (∀ n, old = some n → n.Sealed v) → f old = some new → new.Sealed v)
    {p : List N} {old : Option (Node U N B)} {new : Node U N B}
    (hold : ∀ n, old = some n → n.Sealed v) (h : place u f p old = some new) : new.Sealed v := by
  induction p generalizing old new with
  | nil => exact hf old new hold h
  | cons x p ih =>
    rcases old with _ | _ | ⟨owner, entries⟩
    · obtain ⟨n, hn, rfl⟩ := map_eq_some_iff.1 h
      have hsealed : n.Sealed v := ih hold hn
      have hempty : (Node.dir u ([] : List (N × Node U N B))).Sealed v :=
        sealed_dir.2 ⟨hu, fun y m hm => absurd hm (some_ne_none m).symm⟩
      exact sealed_setEntry hempty hsealed
    · exact absurd h (some_ne_none new).symm
    · obtain ⟨_, hn, rfl⟩ := map_eq_some_iff.1 h
      have hdir := hold _ rfl
      exact sealed_setEntry hdir (ih (fun m hm => (sealed_dir.1 hdir).2 x m hm) hn)

theorem sealed_rewrite (hu : u ≠ v) (old : Option (Node U N B)) (new : Node U N B)
    (hold : ∀ n, old = some n → n.Sealed v) (h : rewrite u content old = some new) :
    new.Sealed v := by
  rcases old with _ | ⟨owner, _⟩ | _
  · cases h
    exact sealed_file.2 hu
  · cases h
    exact sealed_file.2 (sealed_file.1 (hold _ rfl))
  · exact absurd h (some_ne_none new).symm

theorem alter_of_sealed [DecidableEq U] (h : n.Sealed v) (p : List N)
    (new : Node U N B) : alter v p new n = none := by
  induction p generalizing n with
  | nil => exact if_neg fun hown => h [] n rfl hown.1
  | cons x p ih =>
    cases n with
    | file => rfl
    | dir =>
      rw [alter, map_eq_none_iff, bind_eq_none_iff]
      intro m hm
      exact ih ((sealed_dir.1 h).2 x m hm)

/-!
## A directory that everybody may write to

In a directory with the sticky bit, every user may make entries, and only the owner of an entry may
remove or rename it. The entry of a symbolic link belongs to the user who made the link, whatever it
leads to.
-/

open Function

structure Entry (U N B : Type) where
  owner : U
  leads : Node U N B

abbrev Shared (U N B : Type) := N → Option (Entry U N B)

inductive Intrusion (U N B : Type) where
  /-- Makes an entry, or replaces one of its own. -/
  | put (x : N) (n : Node U N B)
  | remove (x : N)
  | rename (x y : N)
  /-- Changes a file or a directory of its own below an entry. -/
  | alter (x : N) (p : List N) (n : Node U N B)

def Entry.Sealed (v : U) (e : Entry U N B) : Prop := e.owner ≠ v ∧ e.leads.Sealed v

namespace Shared

def makeDir (u : U) (x : N) (s : Shared U N B) : Option (Shared U N B) :=
  match s x with
  | none => some (update s x (some ⟨u, .dir u []⟩))
  | some e => if e.leads.isDir then some s else none

/-- Performs an operation at a path below an entry, or makes the entry. -/
def place (u : U) (f : Option (Node U N B) → Option (Node U N B)) (x : N) (p : List N)
    (s : Shared U N B) : Option (Shared U N B) :=
  match s x with
  | some e =>
    (Files.place u f p (some e.leads)).map fun n =>
      update s x (some { e with leads := n })
  | none =>
    if p = [] then (f none).map fun n => update s x (some ⟨u, n⟩) else none

def read (x : N) (p : List N) (s : Shared U N B) : Option B :=
  (s x).bind fun e => e.leads.read p

section Intrude

variable [DecidableEq U]

def mayTake (v : U) (s : Shared U N B) (x : N) : Bool :=
  match s x with
  | none => true
  | some e => e.owner == v

def intrude (v : U) (s : Shared U N B) : Intrusion U N B → Shared U N B
  | .put x n => if s.mayTake v x then update s x (some ⟨v, n⟩) else s
  | .remove x => if s.mayTake v x then update s x none else s
  | .rename x y =>
    match s x with
    | none => s
    | some e =>
      if e.owner = v ∧ s.mayTake v y = true then
        update (update s x none) y (some e)
      else s
  | .alter x p new =>
    match s x with
    | none => s
    | some e =>
      match Files.alter v p new e.leads with
      | none => s
      | some n => update s x (some { e with leads := n })

variable {v : U} {s : Shared U N B} {x y : N} {e : Entry U N B}

theorem ne_of_mayTake (hx : s x = some e) (he : e.Sealed v) (hy : s.mayTake v y) : x ≠ y := by
  rintro rfl
  rw [mayTake, hx] at hy
  exact he.1 (eq_of_beq hy)

theorem intrude_of_sealed (hx : s x = some e) (he : e.Sealed v) (a : Intrusion U N B) :
    s.intrude v a x = some e := by
  cases a with
  | put | remove =>
    rw [intrude]
    split_ifs with hy
    · rw [update_of_ne (ne_of_mayTake hx he hy), hx]
    · exact hx
  | rename y =>
    rcases hy : s y with _ | e'
    · rwa [intrude, hy]
    · simp only [intrude, hy]
      split_ifs with hown
      · have hne : x ≠ y := by
          rintro rfl
          rw [hx] at hy
          exact he.1 (some.inj hy ▸ hown.1)
        rw [update_of_ne (ne_of_mayTake hx he hown.2), update_of_ne hne, hx]
      · exact hx
  | alter y p new =>
    rcases hy : s y with _ | e'
    · rwa [intrude, hy]
    · by_cases hne : x = y
      · subst hne
        rw [hx] at hy
        cases hy
        simp [intrude, hx, alter_of_sealed he.2]
      · simp only [intrude, hy]
        cases Files.alter v p new e'.leads with
        | none => exact hx
        | some =>
          show update s y _ x = some e
          rw [update_of_ne hne, hx]

end Intrude

variable {u : U} {f : Option (Node U N B) → Option (Node U N B)} {s s' : Shared U N B} {x y : N}
  {p : List N} {e : Entry U N B}

theorem makeDir_of_none (hx : s x = none) (h : makeDir u x s = some s') :
    s' x = some ⟨u, .dir u []⟩ := by
  rw [makeDir, hx] at h
  cases h
  exact update_self x _ s

theorem place_of_some (hx : s x = some e) (h : place u f x p s = some s') :
    ∃ n, Files.place u f p (some e.leads) = some n ∧ s' x = some { e with leads := n } := by
  rw [place, hx] at h
  obtain ⟨n, hn, rfl⟩ := map_eq_some_iff.1 h
  exact ⟨n, hn, update_self x _ s⟩

theorem place_of_none (hx : s x = none) (h : place u f x p s = some s') :
    p = [] ∧ ∃ n, f none = some n ∧ s' x = some ⟨u, n⟩ := by
  rw [place, hx, ite_none_right_eq_some] at h
  obtain ⟨hp, h⟩ := h
  obtain ⟨n, hn, rfl⟩ := map_eq_some_iff.1 h
  exact ⟨hp, n, hn, update_self x _ s⟩

theorem place_of_ne (hne : y ≠ x) (h : place u f x p s = some s') : s' y = s y := by
  rw [place] at h
  split at h
  · obtain ⟨n, -, rfl⟩ := map_eq_some_iff.1 h
    exact update_of_ne hne _ s
  · obtain ⟨-, h⟩ := ite_none_right_eq_some.1 h
    obtain ⟨n, -, rfl⟩ := map_eq_some_iff.1 h
    exact update_of_ne hne _ s

/-! ### What is a program's own -/

section Keeps

variable {v : U} {t : Node U N B}

/-- The entry belongs to `u` and leads to `t`, and nothing of it belongs to `v`. -/
def Keeps (v u : U) (x : N) (t : Node U N B) (s : Shared U N B) : Prop :=
  s x = some ⟨u, t⟩ ∧ Entry.Sealed v (⟨u, t⟩ : Entry U N B)

theorem keeps_of_makeDir (hu : u ≠ v) (hx : s x = none) (h : makeDir u x s = some s') :
    s'.Keeps v u x (.dir u []) := by
  refine ⟨makeDir_of_none hx h, hu, sealed_dir.2 ⟨hu, fun y n hn => ?_⟩⟩
  exact absurd hn (some_ne_none n).symm

theorem Keeps.read_eq (h : s.Keeps v u x t) (p : List N) : s.read x p = t.read p := by
  rw [read, h.1, bind_some]

theorem Keeps.intrude [DecidableEq U] (h : s.Keeps v u x t) (a : Intrusion U N B) :
    Keeps v u x t (s.intrude v a) :=
  ⟨intrude_of_sealed h.1 h.2 a, h.2⟩

theorem Keeps.place (h : s.Keeps v u x t)
    (hf : ∀ old new, (∀ n, old = some n → n.Sealed v) → f old = some new → new.Sealed v)
    (hs' : place u f x p s = some s') :
    ∃ n, Files.place u f p (some t) = some n ∧ s'.Keeps v u x n := by
  obtain ⟨n, hn, hentry⟩ := place_of_some h.1 hs'
  have hold : ∀ m, some t = some m → m.Sealed v := fun m hm => some.inj hm ▸ h.2.2
  exact ⟨n, hn, hentry, h.2.1, sealed_place h.2.1 hf hold hn⟩

end Keeps

end Shared

end Abyssal.Files
