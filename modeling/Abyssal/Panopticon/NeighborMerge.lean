import Abyssal.Text.Basic

/-!
# Neighbours seen over LLDP and over CDP

`merge` puts the CDP neighbours of a switch to its LLDP neighbours. One that is already there is not
repeated, but gives its address and platform where they were missing. A neighbour without a name is
taken for any other on its port without one.

## Main results

* `sound_iff`: when the merge is right.
-/

namespace Abyssal.Panopticon.Topology

open Text List

variable {δ : Type*}

/-- `details` stands for the fields that `merge` does not look at. -/
structure Neighbor (δ : Type*) where
  localPort : Text
  remoteName : Text
  remoteAddress : Option Text
  remotePlatform : Text
  details : δ

namespace Neighbor

variable (l n : Neighbor δ)

def same : Bool :=
  l.localPort = n.localPort &&
    (toAsciiLowercase l.remoteName = toAsciiLowercase n.remoteName ||
      l.remoteAddress.isSome && l.remoteAddress = n.remoteAddress)

def fill : Neighbor δ :=
  { l with
    remoteAddress := l.remoteAddress.or n.remoteAddress
    remotePlatform := if l.remotePlatform = [] then n.remotePlatform else l.remotePlatform }

/-- `n` is `l` with no more than a missing address and a missing platform filled in. -/
structure Filled : Prop where
  eq : n = { l with remoteAddress := n.remoteAddress, remotePlatform := n.remotePlatform }
  address : l.remoteAddress ≠ none → n.remoteAddress = l.remoteAddress
  platform : l.remotePlatform ≠ [] → n.remotePlatform = l.remotePlatform

/-- The two are shown to be one device: on one port, with one name or with one address. -/
def Shown : Prop :=
  l.localPort = n.localPort ∧
    (l.remoteName ≠ [] ∧ toAsciiLowercase l.remoteName = toAsciiLowercase n.remoteName ∨
      l.remoteAddress ≠ none ∧ l.remoteAddress = n.remoteAddress)

end Neighbor

open Neighbor

/-- One turn of the loop. -/
def mergeInto (n : Neighbor δ) : List (Neighbor δ) → List (Neighbor δ)
  | [] => [n]
  | l :: out => if l.same n then l.fill n :: out else l :: mergeInto n out

def merge (lldp cdp : List (Neighbor δ)) : List (Neighbor δ) :=
  cdp.foldl (fun out n => mergeInto n out) lldp

/-- Every entry is still there, in its place. -/
def Keeps (out out' : List (Neighbor δ)) : Prop :=
  ∀ (i : ℕ) l, out[i]? = some l → ∃ l', out'[i]? = some l' ∧ Filled l l'

/-- The LLDP neighbours are kept; a CDP neighbour is in the result, or in an entry that is shown to
be the same device. -/
def Sound (lldp cdp : List (Neighbor δ)) : Prop :=
  Keeps lldp (merge lldp cdp) ∧ ∀ before n after, cdp = before ++ n :: after →
    match (merge lldp before).find? (·.same n) with
    | none => ∃ n' ∈ merge lldp cdp, Filled n n'
    | some l => Shown l n ∧ ∃ l' ∈ merge lldp cdp, Filled (l.fill n) l'

variable {l m n : Neighbor δ} {out out' : List (Neighbor δ)}

theorem Neighbor.Filled.refl (l : Neighbor δ) : Filled l l := ⟨rfl, fun _ => rfl, fun _ => rfl⟩

theorem Neighbor.Filled.trans (h : Filled l m) (h' : Filled m n) : Filled l n where
  eq := by rw [h'.eq, h.eq]
  address hne := (h'.address fun hm => hne ((h.address hne).symm.trans hm)).trans (h.address hne)
  platform hne :=
    (h'.platform fun hm => hne ((h.platform hne).symm.trans hm)).trans (h.platform hne)

private theorem filled_fill (l n : Neighbor δ) : Filled l (l.fill n) where
  eq := rfl
  address hne := Option.or_of_isSome (Option.isSome_iff_ne_none.2 hne)
  platform hne := if_neg hne

theorem Keeps.mem (h : Keeps out out') (hl : l ∈ out) : ∃ l' ∈ out', Filled l l' := by
  obtain ⟨i, hi⟩ := mem_iff_getElem?.1 hl
  obtain ⟨l', hl', hfilled⟩ := h i l hi
  exact ⟨l', mem_of_getElem? hl', hfilled⟩

private theorem keeps_mergeInto (n : Neighbor δ) (out : List (Neighbor δ)) :
    Keeps out (mergeInto n out) := by
  induction out with
  | nil => exact nofun
  | cons l out ih =>
    intro i e he
    rw [mergeInto]
    cases i with
    | zero =>
      obtain rfl := Option.some.inj he
      split_ifs
      · exact ⟨_, rfl, filled_fill l n⟩
      · exact ⟨l, rfl, .refl l⟩
    | succ i =>
      split_ifs
      · exact ⟨e, he, .refl e⟩
      · exact ih i e he

theorem keeps_merge (out cdp : List (Neighbor δ)) : Keeps out (merge out cdp) := by
  induction cdp generalizing out with
  | nil => exact fun _ l hl => ⟨l, hl, .refl l⟩
  | cons n cdp ih =>
    intro i l hl
    obtain ⟨l', hl', hfilled⟩ := keeps_mergeInto n out i l hl
    obtain ⟨l'', hl'', hfilled'⟩ := ih (mergeInto n out) i l' hl'
    exact ⟨l'', hl'', hfilled.trans hfilled'⟩

/-- What a turn leaves of the neighbour: the neighbour itself, or the entry it is merged into. -/
theorem mem_mergeInto (n : Neighbor δ) (out : List (Neighbor δ)) :
    ((out.find? (·.same n)).elim n (·.fill n)) ∈ mergeInto n out := by
  induction out with
  | nil => exact mem_cons_self
  | cons l out ih =>
    rw [mergeInto, find?_cons]
    cases l.same n with
    | true => exact mem_cons_self
    | false => exact mem_cons_of_mem _ ih

private theorem shown_of_same (h : l.same n)
    (hname : n.remoteName = [] → l.remoteAddress ≠ none ∧ l.remoteAddress = n.remoteAddress) :
    Shown l n := by
  simp only [same, Bool.and_eq_true, Bool.or_eq_true, decide_eq_true_eq] at h
  refine ⟨h.1, ?_⟩
  rcases h.2 with hnames | ⟨hsome, haddress⟩
  · by_cases hempty : n.remoteName = []
    · exact .inr (hname hempty)
    · refine .inl ⟨fun hnil => hempty ?_, hnames⟩
      rw [hnil] at hnames
      exact map_eq_nil_iff.1 hnames.symm
  · exact .inr ⟨Option.isSome_iff_ne_none.1 hsome, haddress⟩

/-- Exactly if every CDP neighbour without a name has the address of the entry it is merged into. -/
theorem sound_iff (lldp cdp : List (Neighbor δ)) :
    Sound lldp cdp ↔ ∀ before n after, cdp = before ++ n :: after → n.remoteName = [] →
      ∀ l ∈ (merge lldp before).find? (·.same n),
        l.remoteAddress ≠ none ∧ l.remoteAddress = n.remoteAddress := by
  constructor
  · intro h before n after hcdp hname l hl
    have hsound := h.2 before n after hcdp
    rw [hl] at hsound
    rcases hsound.1.2 with ⟨hne, hnames⟩ | haddress
    · rw [hname] at hnames
      exact absurd (map_eq_nil_iff.1 hnames) hne
    · exact haddress
  · intro h
    refine ⟨keeps_merge lldp cdp, fun before n after hcdp => ?_⟩
    have hrest : Keeps (mergeInto n (merge lldp before)) (merge lldp cdp) := by
      rw [hcdp, merge, merge, foldl_append, foldl_cons]
      exact keeps_merge _ after
    have hmem := mem_mergeInto n (merge lldp before)
    split
    · next hnone =>
      rw [hnone] at hmem
      exact hrest.mem hmem
    · next l hsome =>
      have hsame := find?_some hsome
      rw [hsome] at hmem
      exact ⟨shown_of_same hsame fun hname => h before n after hcdp hname l hsome, hrest.mem hmem⟩

/-- Two phones behind one port, neither with a name. -/
theorem not_sound_of_phones :
    ¬ Sound [(⟨"Gi1/0/1", [], some "10.0.0.5", [], ()⟩ : Neighbor Unit)]
      [⟨"Gi1/0/1", [], some "10.0.0.6", [], ()⟩] := by
  intro h
  rcases (h.2 [] _ [] rfl).1.2 with ⟨hne, -⟩ | ⟨-, haddress⟩
  · exact hne rfl
  · revert haddress
    decide

end Abyssal.Panopticon.Topology
