import Mathlib.Data.List.Basic

/-!
# Sequences of type, length and value

An item is a type byte, a length byte and a value; the length counts all three. Items follow
one another without any further framing, so that a sequence of bytes is a sequence of items
only if the lengths lead exactly to its end, and then it is one in only one way.
-/

namespace Abyssal.Tlv

open List UInt8

abbrev Item := UInt8 × List UInt8

/-- The longest value whose length, with the two bytes in front of it, is still a byte. -/
def maxValue : ℕ := 253

def Item.encode (item : Item) : List UInt8 :=
  item.1 :: ofNat (item.2.length + 2) :: item.2

def Item.Fits (item : Item) : Prop := item.2.length ≤ maxValue

instance (item : Item) : Decidable item.Fits := inferInstanceAs (Decidable (_ ≤ _))

def encode (items : List Item) : List UInt8 := items.flatMap Item.encode

@[simp] theorem encode_nil : encode [] = [] := rfl

@[simp] theorem encode_cons (item : Item) (items : List Item) :
    encode (item :: items) = item.encode ++ encode items := rfl

theorem encode_append (items others : List Item) :
    encode (items ++ others) = encode items ++ encode others := flatMap_append

@[simp] theorem Item.length_encode (item : Item) : item.encode.length = item.2.length + 2 := rfl

/-- The lengths, each at least two, lead exactly to the end of the bytes. -/
inductive Tiles : List UInt8 → Prop
  | done : Tiles []
  | item {kind length : UInt8} {rest : List UInt8} (htwo : 2 ≤ length.toNat)
      (hfits : length.toNat ≤ rest.length + 2) (hrest : Tiles (rest.drop (length.toNat - 2))) :
      Tiles (kind :: length :: rest)

/-- The items of a sequence of bytes, if its lengths tile it. -/
def decode : List UInt8 → Option (List Item)
  | [] => some []
  | [_] => none
  | kind :: length :: rest =>
    if length.toNat < 2 ∨ rest.length + 2 < length.toNat then none
    else (decode (rest.drop (length.toNat - 2))).map
      ((kind, rest.take (length.toNat - 2)) :: ·)
termination_by bytes => bytes.length
decreasing_by
  simp only [length_cons, length_drop]
  omega

@[simp] theorem decode_nil : decode [] = some [] := by rw [decode]

@[simp] theorem decode_singleton (byte : UInt8) : decode [byte] = none := by rw [decode]

theorem decode_cons_cons (kind length : UInt8) (rest : List UInt8) :
    decode (kind :: length :: rest) = if length.toNat < 2 ∨ rest.length + 2 < length.toNat then none
      else (decode (rest.drop (length.toNat - 2))).map
        ((kind, rest.take (length.toNat - 2)) :: ·) := by
  rw [decode]

theorem Item.Fits.toNat_length {item : Item} (h : item.Fits) :
    (ofNat (item.2.length + 2)).toNat = item.2.length + 2 := by
  have hle : item.2.length ≤ 253 := h
  rw [toNat_ofNat']
  omega

theorem decode_encode {items : List Item} (h : ∀ item ∈ items, item.Fits) :
    decode (encode items) = some items := by
  induction items with
  | nil => exact decode_nil
  | cons item _ ih =>
    have hlength := (h item mem_cons_self).toNat_length
    have hrest := ih fun other hmem => h other (mem_cons_of_mem _ hmem)
    rw [encode_cons, Item.encode, cons_append, cons_append, decode_cons_cons, hlength,
      if_neg (by rw [length_append]; omega), Nat.add_sub_cancel, drop_left,
      take_left, hrest]
    rfl

theorem of_decode_eq_some {bytes : List UInt8} {items : List Item}
    (h : decode bytes = some items) : bytes = encode items ∧ ∀ item ∈ items, item.Fits := by
  fun_induction decode bytes generalizing items with
  | case1 =>
    cases h
    exact ⟨rfl, nofun⟩
  | case2 => cases h
  | case3 => cases h
  | case4 _ length rest hgood ih =>
    rw [not_or, Nat.not_lt] at hgood
    obtain ⟨_, hothers, rfl⟩ := Option.map_eq_some_iff.1 h
    obtain ⟨hbytes, hfits⟩ := ih hothers
    have hbyte : length.toNat < 256 := length.toNat_lt
    have htake : (rest.take (length.toNat - 2)).length = length.toNat - 2 := by
      rw [length_take]
      omega
    have hlength : ofNat (length.toNat - 2 + 2) = length := by
      rw [Nat.sub_add_cancel hgood.1, UInt8.ofNat_toNat]
    refine ⟨?_, forall_mem_cons.2 ⟨?_, hfits⟩⟩
    · rw [encode_cons, Item.encode, ← hbytes]
      simp [htake, hlength, take_append_drop]
    · change (rest.take (length.toNat - 2)).length ≤ 253
      omega

theorem isSome_decode_iff (bytes : List UInt8) : (decode bytes).isSome ↔ Tiles bytes := by
  fun_induction decode bytes with
  | case1 => exact iff_of_true rfl .done
  | case2 => exact iff_of_false Bool.false_ne_true (fun h => nomatch h)
  | case3 =>
    refine iff_of_false Bool.false_ne_true ?_
    rintro (_ | ⟨htwo, hfits, hrest⟩)
    omega
  | case4 _ _ _ hgood ih =>
    rw [not_or, Nat.not_lt, Nat.not_lt] at hgood
    rw [Option.isSome_map, ih]
    constructor
    · exact .item hgood.1 hgood.2
    · rintro (_ | ⟨htwo, hfits, hrest⟩)
      exact hrest

end Abyssal.Tlv
