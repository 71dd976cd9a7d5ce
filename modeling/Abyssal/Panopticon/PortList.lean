import Mathlib.Data.BitVec

/-!
# Port lists

A `PortList` of RFC 2674 is a bitmap over bridge port numbers: port `N` is bit `N - 1`, and the
most significant bit of each octet is the lowest-numbered port. `portlistSet` is the edit that a
quarantine and its revert make in the port lists of a VLAN.

## Main results

* `portlistSet_spec`: one bit changes.
-/

namespace Abyssal.Panopticon

open List

abbrev PortList := List (BitVec 8)

variable (bytes : PortList)

def PortList.octet (index : ℕ) : BitVec 8 := bytes.getD index 0

variable (bridgePort : ℕ)

def portMask : BitVec 8 := 0x80#8 >>> ((bridgePort - 1) % 8)

def PortList.contains : Bool :=
  bridgePort ≠ 0 ∧ (bytes.octet ((bridgePort - 1) / 8)).getMsbD ((bridgePort - 1) % 8)

def portlistSet (on : Bool) : PortList × Bool :=
  if bridgePort = 0 then (bytes, false)
  else
    let index := (bridgePort - 1) / 8
    if on then
      let bytes := bytes ++ replicate (index + 1 - bytes.length) 0
      let before := bytes.octet index
      let after := before ||| portMask bridgePort
      (bytes.set index after, after != before)
    else if bytes.length ≤ index then (bytes, false)
    else
      let before := bytes.octet index
      let after := before &&& ~~~portMask bridgePort
      (bytes.set index after, after != before)

/-! ### Octets -/

open PortList

theorem octet_append_replicate (n j : ℕ) : octet (bytes ++ replicate n 0) j = bytes.octet j := by
  simp only [octet, getD_eq_getElem?_getD]
  by_cases hj : j < bytes.length
  · rw [getElem?_append_left hj]
  · have hle : bytes.length ≤ j := by omega
    rw [getElem?_append_right hle, getElem?_eq_none hle, getElem?_replicate]
    split_ifs <;> rfl

theorem octet_set {index : ℕ} (hindex : index < bytes.length) (b : BitVec 8)
    (j : ℕ) : octet (bytes.set index b) j = if j = index then b else bytes.octet j := by
  simp only [octet, getD_eq_getElem?_getD, getElem?_set]
  by_cases hj : j = index
  · subst hj
    simp [hindex]
  · rw [if_neg (Ne.symm hj), if_neg hj]

variable {j : ℕ}

theorem octet_of_length_le {bytes : PortList} (h : bytes.length ≤ j) : bytes.octet j = 0 := by
  simp [octet, getD_eq_getElem?_getD, getElem?_eq_none h]

theorem getMsbD_portMask (hj : j < 8) :
    (portMask bridgePort).getMsbD j = decide (j = (bridgePort - 1) % 8) := by
  have hmask : ∀ k < 8, ∀ j < 8, (0x80#8 >>> k).getMsbD j = decide (j = k) := by decide
  exact hmask _ (Nat.mod_lt _ (by omega)) j hj

/-! ### The edit of one port -/

variable {bridgePort : ℕ}

private theorem octet_portlistSet (hport : bridgePort ≠ 0) (on : Bool)
    (j : ℕ) : (portlistSet bytes bridgePort on).1.octet j = if j = (bridgePort - 1) / 8 then
        if on then bytes.octet j ||| portMask bridgePort
        else bytes.octet j &&& ~~~portMask bridgePort else bytes.octet j := by
  cases on with
  | true =>
    have hlen : (bridgePort - 1) / 8 <
        (bytes ++ replicate ((bridgePort - 1) / 8 + 1 - bytes.length) 0).length := by
      rw [length_append, length_replicate]
      omega
    simp only [portlistSet, hport, ↓reduceIte]
    rw [octet_set _ hlen]
    split_ifs with hj
    · subst hj
      rw [octet_append_replicate]
    · rw [octet_append_replicate]
  | false =>
    by_cases hlen : bytes.length ≤ (bridgePort - 1) / 8
    · simp only [portlistSet, hport, Bool.false_eq_true, hlen, ↓reduceIte]
      split_ifs with hj
      · subst hj
        rw [octet_of_length_le hlen]
        exact BitVec.zero_and.symm
      · rfl
    · simp only [portlistSet, hport, Bool.false_eq_true, hlen, ↓reduceIte]
      rw [octet_set _ (by omega)]
      split_ifs with hj
      · subst hj
        rfl
      · rfl

theorem contains_portlistSet (hport : bridgePort ≠ 0)
    (on : Bool) (q : ℕ) : (portlistSet bytes bridgePort on).1.contains q =
      if q = bridgePort then on else bytes.contains q := by
  by_cases hq : q = 0
  · have hne : q ≠ bridgePort := fun h => hport (h ▸ hq)
    rw [if_neg hne]
    simp [PortList.contains, hq]
  have hbit : (q - 1) % 8 < 8 := Nat.mod_lt _ (by omega)
  simp only [PortList.contains, octet_portlistSet bytes hport]
  by_cases hidx : (q - 1) / 8 = (bridgePort - 1) / 8
  · have hsame : ((q - 1) % 8 = (bridgePort - 1) % 8) ↔ q = bridgePort := by omega
    cases on with
    | true =>
      by_cases heq : q = bridgePort
      · subst heq
        simp [hport, getMsbD_portMask q hbit]
      · have hne : (q - 1) % 8 ≠ (bridgePort - 1) % 8 := fun h => heq (hsame.mp h)
        simp [hq, hidx, heq, getMsbD_portMask bridgePort hbit, hne]
    | false =>
      by_cases heq : q = bridgePort
      · subst heq
        simp [hport, getMsbD_portMask q hbit, hbit]
      · have hne : (q - 1) % 8 ≠ (bridgePort - 1) % 8 := fun h => heq (hsame.mp h)
        simp [hq, hidx, heq, getMsbD_portMask bridgePort hbit, hne, hbit]
  · have hne : q ≠ bridgePort := fun h => hidx (h ▸ rfl)
    simp [hidx, hne]

theorem or_portMask_eq_self (b : BitVec 8) (bridgePort : ℕ) :
    b ||| portMask bridgePort = b ↔ b.getMsbD ((bridgePort - 1) % 8) := by
  have hbit : (bridgePort - 1) % 8 < 8 := Nat.mod_lt _ (by omega)
  constructor
  · intro h
    rw [← h, BitVec.getMsbD_or, getMsbD_portMask bridgePort hbit]
    simp
  · intro h
    refine BitVec.eq_of_getMsbD_eq fun j hj => ?_
    rw [BitVec.getMsbD_or, getMsbD_portMask bridgePort hj]
    by_cases hj' : j = (bridgePort - 1) % 8
    · simp [hj', h]
    · simp [hj']

private theorem and_not_portMask_eq_self (b : BitVec 8) (bridgePort : ℕ) :
    b &&& ~~~portMask bridgePort = b ↔ b.getMsbD ((bridgePort - 1) % 8) = false := by
  have hbit : (bridgePort - 1) % 8 < 8 := Nat.mod_lt _ (by omega)
  constructor
  · intro h
    rw [← h, BitVec.getMsbD_and, BitVec.getMsbD_not, getMsbD_portMask bridgePort hbit]
    simp [hbit]
  · intro h
    refine BitVec.eq_of_getMsbD_eq fun j hj => ?_
    rw [BitVec.getMsbD_and, BitVec.getMsbD_not, getMsbD_portMask bridgePort hj]
    by_cases hj' : j = (bridgePort - 1) % 8
    · simp [hj', h]
    · simp [hj', hj]

theorem portlistSet_changed (hport : bridgePort ≠ 0)
    (on : Bool) : (portlistSet bytes bridgePort on).2 ↔ bytes.contains bridgePort ≠ on := by
  cases on with
  | true =>
    simp only [portlistSet, hport, ↓reduceIte, bne_iff_ne, ne_eq, octet_append_replicate,
      or_portMask_eq_self]
    simp [PortList.contains, hport]
  | false =>
    by_cases hlen : bytes.length ≤ (bridgePort - 1) / 8
    · simp [portlistSet, hport, hlen, PortList.contains, octet_of_length_le hlen]
    · simp only [portlistSet, hport, hlen, Bool.false_eq_true, ↓reduceIte, bne_iff_ne, ne_eq,
        and_not_portMask_eq_self]
      simp [PortList.contains, hport]

/-- The edit with the indexing of the source, which fails where an octet is out of range. -/
def portlistSetIndexed (bridgePort : ℕ) (on : Bool) : Option (PortList × Bool) := do
  if bridgePort = 0 then return (bytes, false)
  let index := (bridgePort - 1) / 8
  if on then
    let bytes := bytes ++ replicate (index + 1 - bytes.length) 0
    let before ← bytes[index]?
    let after := before ||| portMask bridgePort
    return (bytes.set index after, after != before)
  else if bytes.length ≤ index then return (bytes, false)
  else
    let before ← bytes[index]?
    let after := before &&& ~~~portMask bridgePort
    return (bytes.set index after, after != before)

variable {bytes} in
private theorem getElem?_eq_octet (hj : j < bytes.length) : bytes[j]? = some (bytes.octet j) := by
  rw [octet, getD_eq_getElem?_getD, getElem?_eq_getElem hj, Option.getD_some]

private theorem portlistSetIndexed_eq (bridgePort : ℕ) (on : Bool) :
    portlistSetIndexed bytes bridgePort on = some (portlistSet bytes bridgePort on) := by
  simp only [portlistSetIndexed, portlistSet]
  split_ifs with hport hon hlen
  · rfl
  · rw [getElem?_eq_octet]
    · rfl
    · rw [length_append, length_replicate]
      omega
  · rfl
  · rw [getElem?_eq_octet (Nat.lt_of_not_le hlen)]
    rfl

/-- The edit is the insertion of the port into the set that the list encodes, or its removal. -/
theorem portlistSet_spec (bytes : PortList) {bridgePort : ℕ} (hport : 1 ≤ bridgePort) :
    (∀ on q, (portlistSet bytes bridgePort on).1.contains q =
        if q = bridgePort then on else bytes.contains q) ∧
      (∀ on, (portlistSet bytes bridgePort on).2 ↔ bytes.contains bridgePort ≠ on) ∧
      (bytes.contains bridgePort = false → ∀ q,
        (portlistSet (portlistSet bytes bridgePort true).1 bridgePort false).1.contains q =
          bytes.contains q) ∧
      ∀ on, portlistSetIndexed bytes bridgePort on = some (portlistSet bytes bridgePort on) := by
  have hne : bridgePort ≠ 0 := Nat.ne_of_gt hport
  refine ⟨contains_portlistSet bytes hne, portlistSet_changed bytes hne, fun habsent q => ?_,
    portlistSetIndexed_eq bytes bridgePort⟩
  rw [contains_portlistSet _ hne, contains_portlistSet _ hne]
  split_ifs with hq
  · rw [hq, habsent]
  · rfl

theorem portlistSet_spec_nine :
    (portlistSet [0x40] 9 true).1.contains 2 ∧ (portlistSet [0x40] 9 true).1.contains 9 :=
  ⟨(portlistSet_spec [0x40] (by decide)).1 true 2, (portlistSet_spec [0x40] (by decide)).1 true 9⟩

end Abyssal.Panopticon
