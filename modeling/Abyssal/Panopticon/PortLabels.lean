import Abyssal.Text.Layout
import Mathlib.Data.List.Nodup

/-!
# Labels of switch ports

A port is labelled by the name it has on the switch, else by its description. The label is the key
by which devices and enforcement find the port again.

## Main results

* `nodup_portLabels_iff`: when labels tell ports apart.
-/

namespace Abyssal.Panopticon.Snmp

open Text List Option

/-- An interface index and the text that the switch has for it. -/
abbrev PortText := ℤ × Text

variable (aliases : List PortText)

def ifName (ifIndex : ℤ) : Text :=
  "if" ++ (if ifIndex < 0 then '-' :: ofNat ifIndex.natAbs else ofNat ifIndex.natAbs)

def aliasOf (ifIndex : ℤ) : Option Text :=
  ((aliases.find? (·.1 = ifIndex)).map (·.2)).filter (· ≠ [])

def aliasCount (name : Text) : ℕ :=
  ((aliases.filter (·.2 ≠ [])).filter (·.2 = name)).length

def label (port : PortText) : Text :=
  match aliasOf aliases port.1 with
  | some name =>
    if 1 < aliasCount aliases name then
      if port.2 = [] then name ++ " (" ++ ifName port.1 ++ ")"
      else name ++ " (" ++ port.2 ++ ")"
    else name
  | none => if port.2 = [] then ifName port.1 else port.2

def portLabels (hwDescr : List PortText) : List PortText :=
  hwDescr.map fun port => (port.1, label aliases port)

/-! ### When two labels are the same -/

def ownName (port : PortText) : Text := if port.2 = [] then ifName port.1 else port.2

/-- What a port with this name is called. -/
def named (port : PortText) (name : Text) : Text :=
  if 1 < aliasCount aliases name then name ++ " (" ++ ownName port ++ ")" else name

/-- A port has the label of another: its name, with or without an appendix, is what the other is
called; or, where neither has a name, its description is the one made up for the other. -/
def Clash (port other : PortText) : Prop :=
  match aliasOf aliases port.1, aliasOf aliases other.1 with
  | some name, some name' =>
    1 < aliasCount aliases name ∧ named aliases port name = named aliases other name'
  | some name, none => named aliases port name = ownName other
  | none, some _ => False
  | none, none => other.2 = [] ∧ port.2 = ifName other.1

variable {aliases} {port other : PortText}

theorem label_eq (aliases : List PortText) (port : PortText) :
    label aliases port = (aliasOf aliases port.1).elim (ownName port) (named aliases port) := by
  rw [label]
  cases aliasOf aliases port.1 with
  | none => rfl
  | some name =>
    dsimp only
    rw [elim_some, named, ownName]
    split_ifs <;> rfl

theorem ifName_inj {i j : ℤ} (h : ifName i = ifName j) : i = j := by
  have hdigits : ∀ {m n}, ofNat m = ofNat n → m = n := by
    intro m n hmn
    have hvalue := congrArg (Nat.ofDigitChars 10 · 0) hmn
    simpa [ofNat] using hvalue
  have hsign : ∀ m n, ofNat m ≠ '-' :: ofNat n := fun m n hmn =>
    not_mem_ofNat (by decide) m (hmn ▸ mem_cons_self)
  rw [ifName, ifName, append_cancel_left_eq] at h
  split_ifs at h with hi hj hj
  · have habs := hdigits (cons.inj h).2
    omega
  · exact absurd h.symm (hsign _ _)
  · exact absurd h (hsign _ _)
  · have habs := hdigits h
    omega

theorem one_lt_aliasCount {name : Text} (hport : aliasOf aliases port.1 = some name)
    (hother : aliasOf aliases other.1 = some name) (hne : port.1 ≠ other.1) :
    1 < aliasCount aliases name := by
  have hmem : ∀ {i}, aliasOf aliases i = some name →
      (i, name) ∈ (aliases.filter (·.2 ≠ [])).filter (·.2 = name) := by
    intro i hi
    obtain ⟨hfind, hname⟩ := filter_eq_some_iff.1 hi
    obtain ⟨⟨j, text⟩, hrow, rfl⟩ := map_eq_some_iff.1 hfind
    obtain rfl : j = i := by simpa using find?_some hrow
    simpa using ⟨mem_of_find?_eq_some hrow, of_decide_eq_true hname⟩
  have hfirst := hmem hport
  have hsecond := hmem hother
  rw [aliasCount]
  generalize (aliases.filter (·.2 ≠ [])).filter (·.2 = name) = rows at hfirst hsecond
  match rows with
  | [] => cases hfirst
  | [row] =>
    rw [mem_singleton] at hfirst hsecond
    exact absurd (congrArg Prod.fst (hfirst.trans hsecond.symm)) hne
  | _ :: _ :: rows => simp

theorem Clash.label_eq (h : Clash aliases port other) :
    label aliases port = label aliases other := by
  rw [Snmp.label_eq, Snmp.label_eq]
  unfold Clash at h
  cases hport : aliasOf aliases port.1 <;> cases hother : aliasOf aliases other.1 <;>
    rw [hport, hother] at h
  case none.none =>
    rw [elim_none, elim_none, ownName, ownName, if_pos h.1, h.2,
      if_neg (show ifName other.1 ≠ [] from cons_ne_nil _ _)]
  case none.some => exact h.elim
  case some.none => exact h
  case some.some => exact h.2

private theorem clash_of_label_eq (hne : port.1 ≠ other.1)
    (hdescr : port.2 ≠ [] → other.2 ≠ [] → port.2 ≠ other.2)
    (h : label aliases port = label aliases other) :
    Clash aliases port other ∨ Clash aliases other port := by
  rw [label_eq, label_eq] at h
  unfold Clash
  cases hport : aliasOf aliases port.1 <;> cases hother : aliasOf aliases other.1 <;>
    rw [hport, hother] at h
  case none.none =>
    rw [elim_none, ownName, ownName] at h
    split_ifs at h with hfirst hsecond hsecond
    · exact absurd (ifName_inj h) hne
    · exact .inr ⟨hfirst, h.symm⟩
    · exact .inl ⟨hsecond, h⟩
    · exact absurd h (hdescr hfirst hsecond)
  case none.some => exact .inr h.symm
  case some.none => exact .inl h
  case some.some name name' =>
    by_cases hshared : 1 < aliasCount aliases name
    · exact .inl ⟨hshared, h⟩
    · refine .inr ⟨?_, h.symm⟩
      by_contra hunshared
      rw [elim_some, elim_some, named, named, if_neg hshared, if_neg hunshared] at h
      exact hshared (one_lt_aliasCount hport (h ▸ hother) hne)

/-- With different descriptions the labels are different, unless the name of one port is what
another is called. -/
theorem nodup_portLabels_iff {hwDescr : List PortText} (hkeys : (hwDescr.map (·.1)).Nodup)
    (hdescr : ∀ port ∈ hwDescr, ∀ other ∈ hwDescr, port ≠ other → port.2 ≠ [] → other.2 ≠ [] →
      port.2 ≠ other.2) (aliases : List PortText) :
    ((portLabels aliases hwDescr).map (·.2)).Nodup ↔
      ∀ port ∈ hwDescr, ∀ other ∈ hwDescr, port ≠ other → ¬ Clash aliases port other := by
  have hlabels : (portLabels aliases hwDescr).map (·.2) = hwDescr.map (label aliases) := by
    rw [portLabels, List.map_map]
    rfl
  rw [hlabels, nodup_map_iff_inj_on (Nodup.of_map _ hkeys)]
  constructor
  · intro hinj port hport other hother hne hclash
    exact hne (hinj port hport other hother hclash.label_eq)
  · intro hclash port hport other hother heq
    by_contra hne
    have hindex : port.1 ≠ other.1 := fun hi =>
      hne (inj_on_of_nodup_map hkeys hport hother hi)
    rcases clash_of_label_eq hindex (hdescr port hport other hother hne) heq with hc | hc
    · exact hclash port hport other hother hne hc
    · exact hclash other hother port hport (Ne.symm hne) hc

theorem nodup_portLabels_iff_two :
    ((portLabels [(1, "Printer")] [(1, "Gi1"), (2, [])]).map (·.2)).Nodup ∧
      ¬ Clash [(1, "Printer")] (1, "Gi1") (2, []) :=
  ⟨by decide, (@nodup_portLabels_iff [(1, "Gi1"), (2, [])] (by decide) (by decide) _).1
    (by decide) _ (by decide) _ (by decide) (by decide)⟩

/-- The name of the first port is the description of the second. -/
theorem portLabels_shared :
    portLabels [(1, "Gi2")] [(1, "Gi1"), (2, "Gi2")] = [(1, "Gi2".toList), (2, "Gi2".toList)] := by
  decide

end Abyssal.Panopticon.Snmp
