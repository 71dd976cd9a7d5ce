import Abyssal.Files.Tree

/-!
# Unpacking an archive

An archive is a list of files and directories, each with its path and its recorded owner. A file
takes the place of a file that is there, and a directory that is there is kept. Whoever unpacks it
owns what is extracted, except that the superuser keeps the recorded owners.
-/

namespace Abyssal.Files

open List Option

variable {U N B : Type}

structure Member (U N B : Type) where
  path : List N
  owner : U
  content : Option B

/-- `--strip-components=1`: a member whose path has no second component is left out. -/
def strip (members : List (Member U N B)) : List (Member U N B) :=
  (members.filter fun m => 1 < m.path.length).map fun m => { m with path := m.path.tail }

def Member.fresh (m : Member U N B) (owner : U) : Node U N B :=
  match m.content with
  | some content => .file owner content
  | none => .dir owner []

/-- What the user `u` makes of what is at the path of a member, if it can. -/
def extract (u : U) (keepsOwner : Bool) (m : Member U N B) :
    Option (Node U N B) → Option (Node U N B)
  | some (.dir owner entries) =>
    if m.content.isSome then none
    else some (.dir (if keepsOwner then m.owner else owner) entries)
  | _ => some (m.fresh (if keepsOwner then m.owner else u))

variable [DecidableEq N]

/-- The directory after the members were extracted one after the other, if all could be. -/
def unpack (u : U) (keepsOwner : Bool) :
    List (Member U N B) → Node U N B → Option (Node U N B)
  | [], t => some t
  | m :: members, t =>
    (place u (extract u keepsOwner m) m.path (some t)).bind (unpack u keepsOwner members)

variable {u v : U} {keepsOwner : Bool} {m : Member U N B} {x : N} {owner : U} {content : B}
  {t t' new : Node U N B}

theorem unpack_append (done : List (Member U N B)) (m : Member U N B) (t : Node U N B) :
    unpack u keepsOwner (done ++ [m]) t = (unpack u keepsOwner done t).bind fun t' =>
      place u (extract u keepsOwner m) m.path (some t') := by
  induction done generalizing t with
  | nil =>
    rw [nil_append, unpack]
    exact bind_fun_some _
  | cons _ _ ih =>
    rw [cons_append, unpack, unpack, bind_assoc]
    exact congrArg _ (funext ih)

theorem Member.sealed_fresh (howner : owner ≠ v) (m : Member U N B) : (m.fresh owner).Sealed v := by
  rw [fresh]
  split
  · exact sealed_file.2 howner
  · exact sealed_dir.2 ⟨howner, fun y n hn => absurd hn (some_ne_none n).symm⟩

theorem sealed_extract (hu : u ≠ v) (hm : keepsOwner → m.owner ≠ v)
    (old : Option (Node U N B)) (new : Node U N B) (hold : ∀ n, old = some n → n.Sealed v)
    (h : extract u keepsOwner m old = some new) : new.Sealed v := by
  have howner : ∀ {o : U}, o ≠ v → (if keepsOwner then m.owner else o) ≠ v := by
    intro o ho
    split_ifs with hkeeps
    · exact hm hkeeps
    · exact ho
  rcases old with _ | _ | ⟨owner, entries⟩
  · exact some.inj h ▸ m.sealed_fresh (howner hu)
  · exact some.inj h ▸ m.sealed_fresh (howner hu)
  · obtain ⟨hdir, hentries⟩ := sealed_dir.1 (hold _ rfl)
    rw [extract, ite_none_left_eq_some] at h
    cases h.2
    exact sealed_dir.2 ⟨howner hdir, hentries⟩

/-! ### Unpacking beside a file -/

/-- The directories are the same, or differ by a file that only the first one has. -/
inductive Beside (x : N) (owner : U) (content : B) : Node U N B → Node U N B → Prop where
  | same (t : Node U N B) : Beside x owner content t t
  | extra (o : U) (entries : List (N × Node U N B))
      (hx : entries.lookup x = some (.file owner content))
      (honly : ∀ e ∈ entries, e.1 = x → e.2.isDir = false) :
      Beside x owner content (.dir o entries) (.dir o (entries.filter fun e => !(e.1 == x)))

theorem lookup_filter_self (x : N) (entries : List (N × Node U N B)) :
    (entries.filter fun e => !(e.1 == x)).lookup x = none := by
  rw [lookup_eq_none_iff]
  intro e he
  have hne : e.1 ≠ x := by simpa using (mem_filter.1 he).2
  exact bne_iff_ne.2 hne.symm

theorem Beside.single (u : U) (x : N) (owner : U) (content : B) :
    Beside x owner content (.dir u [(x, .file owner content)]) (.dir u []) := by
  have h : Beside x owner content (.dir u [(x, .file owner content)])
      (.dir u ([(x, .file owner content)].filter fun e => !(e.1 == x))) := by
    refine .extra u _ ?_ ?_
    · rw [lookup_cons, beq_self_eq_true]
    · rintro e he -
      rw [mem_singleton.1 he, Node.isDir]
  rwa [filter_cons_of_neg (by simp)] at h

theorem Beside.place (h : Beside x owner content t t')
    (hnew : place u (extract u keepsOwner m) m.path (some t) = some new) :
    ∃ new', place u (extract u keepsOwner m) m.path (some t') = some new' ∧
      Beside x owner content new new' := by
  cases h with
  | same => exact ⟨new, hnew, .same new⟩
  | extra o entries hx honly =>
    rcases hpath : m.path with _ | ⟨y, p⟩
    · -- the directory itself
      rw [hpath, place, extract, ite_none_left_eq_some] at hnew
      obtain ⟨hdir, hnew⟩ := hnew
      cases hnew
      rw [place, extract, if_neg hdir]
      exact ⟨_, rfl, .extra _ entries hx honly⟩
    · rw [hpath] at hnew
      obtain ⟨n, hn, rfl⟩ := map_eq_some_iff.1 hnew
      rw [place]
      by_cases hy : y = x
      · -- the file is replaced, and then the directories are the same
        subst hy
        rw [hx] at hn
        rw [lookup_filter_self]
        cases p with
        | nil =>
          rw [place] at hn
          refine ⟨_, map_eq_some_iff.2 ⟨n, hn, rfl⟩, ?_⟩
          rw [setEntry, setEntry, List.filter_filter]
          simp only [Bool.and_self]
          exact .same _
        | cons => exact absurd hn (some_ne_none n).symm
      · rw [lookup_filter_ne hy]
        refine ⟨_, map_eq_some_iff.2 ⟨n, hn, rfl⟩, ?_⟩
        have hfilter : setEntry y n (entries.filter fun e => !(e.1 == x)) =
            (setEntry y n entries).filter fun e => !(e.1 == x) := by
          rw [setEntry, setEntry, filter_cons_of_pos (by simp [hy]), filter_comm]
        rw [hfilter]
        refine .extra o _ ?_ ?_
        · rw [lookup_setEntry_of_ne (Ne.symm hy), hx]
        · rintro e he hex
          rcases mem_cons.1 he with rfl | he
          · exact absurd hex hy
          · exact honly e (mem_of_mem_filter he) hex

theorem Beside.unpack (h : Beside x owner content t t') {members : List (Member U N B)}
    (hnew : unpack u keepsOwner members t = some new) :
    ∃ new', unpack u keepsOwner members t' = some new' ∧ Beside x owner content new new' := by
  induction members generalizing t t' with
  | nil =>
    cases hnew
    exact ⟨t', rfl, h⟩
  | cons _ _ ih =>
    obtain ⟨_, ht₁, hnew⟩ := bind_eq_some_iff.1 hnew
    obtain ⟨t₁', ht₁', hbeside⟩ := h.place ht₁
    rw [unpack, ht₁']
    exact ih hbeside hnew

theorem Beside.child_of_ne (h : Beside x owner content t t') {y : N} (hy : y ≠ x) :
    t.child y = t'.child y := by
  cases h with
  | same => rfl
  | extra _ entries => exact (lookup_filter_ne hy entries).symm

theorem Beside.child_self (h : Beside x owner content t t') :
    t.child x = t'.child x ∨ t.child x = some (.file owner content) ∧ t'.child x = none := by
  cases h with
  | same => exact .inl rfl
  | extra _ entries hx => exact .inr ⟨hx, lookup_filter_self x entries⟩

theorem Beside.filter_isDir (h : Beside x owner content t t') :
    (t.entries.filter fun e => e.2.isDir) = t'.entries.filter fun e => e.2.isDir := by
  cases h with
  | same => rfl
  | extra _ _ _ honly =>
    rw [Node.entries, Node.entries, List.filter_filter]
    refine filter_congr fun e he => ?_
    by_cases hex : e.1 = x
    · rw [honly e he hex, Bool.false_and]
    · rw [beq_false_of_ne hex, Bool.not_false, Bool.and_true]

theorem Beside.child_of_isDir (h : Beside x owner content t t') {y : N} {d : Node U N B}
    (hd : (y, d) ∈ t.entries) (hdir : d.isDir) : t.child y = t'.child y := by
  cases h with
  | same => rfl
  | extra _ entries _ honly =>
    refine (lookup_filter_ne ?_ entries).symm
    rintro rfl
    cases (honly _ hd rfl).symm.trans hdir

end Abyssal.Files
