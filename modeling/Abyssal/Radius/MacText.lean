import Abyssal.Radius.Admission

/-!
# Which texts count as a MAC address

`normalizeMac` drops every character that is no hexadecimal digit, whatever it is.

## Main results

* `normalizeMac_exact_iff`: the texts that are not taken for others.
-/

namespace Abyssal.Radius

open Text List

variable {raw other : Text} {c : Char}

/-- The digits that a text carries, in lower case. -/
def macDigits (raw : Text) : Text := (raw.filter isAsciiHexdigit).map Char.toLower

def IsMacText (raw : Text) : Prop :=
  (macDigits raw).length = 12 ∧
    ∀ c ∈ raw, isAsciiHexdigit c = true ∨ isAsciiPunctuation c = true

theorem normalizeMac_eq_some_iff {mac : Mac} :
    normalizeMac raw = some mac ↔
      (macDigits raw).length = 12 ∧ joinPairs (macDigits raw) = mac := by
  rw [normalizeMac, macDigits]
  simp

theorem toLower_of_isAsciiHexdigit (h : isAsciiHexdigit c) :
    isAsciiHexdigit c.toLower ∧ c.toLower.toLower = c.toLower := by
  have hall : ∀ n ∈ range 103, isAsciiHexdigit (Char.ofNat n) →
      isAsciiHexdigit (Char.ofNat n).toLower ∧
        (Char.ofNat n).toLower.toLower = (Char.ofNat n).toLower := by
    decide
  have hbound : c.toNat < 103 := by
    simp only [isAsciiHexdigit, Char.isDigit, Bool.or_eq_true, Bool.and_eq_true, decide_eq_true_eq,
      Char.le_def, UInt32.le_iff_toNat_le, ge_iff_le] at h
    simp only [Char.reduceVal, UInt32.reduceToNat, Char.toNat_val] at h
    omega
  have hc := hall c.toNat (mem_range.2 hbound)
  rw [Char.ofNat_toNat] at hc
  exact hc h

private theorem filter_joinPairs {digits : Text} (h : ∀ c ∈ digits, isAsciiHexdigit c) :
    (joinPairs digits).filter isAsciiHexdigit = digits := by
  fun_induction joinPairs digits with
  | case1 a b c rest ih =>
    simp only [forall_mem_cons] at h
    rw [filter_cons_of_pos h.1, filter_cons_of_pos h.2.1,
      filter_cons_of_neg (by decide), ih (forall_mem_cons.2 h.2.2)]
  | case2 rest => exact filter_eq_self.2 h

private theorem macDigits_joinPairs (raw : Text) :
    macDigits (joinPairs (macDigits raw)) = macDigits raw := by
  have hdigits : ∀ c ∈ macDigits raw, isAsciiHexdigit c ∧ c.toLower = c := by
    intro c hc
    obtain ⟨d, hd, rfl⟩ := mem_map.1 hc
    exact toLower_of_isAsciiHexdigit (of_mem_filter hd)
  rw [macDigits, filter_joinPairs fun c hc => (hdigits c hc).1]
  exact (map_congr_left fun c hc => (hdigits c hc).2).trans (map_id _)

/-- A text is taken for a MAC address exactly when it carries twelve digits. It then is one, with
punctuation and nothing else between the digits, if it has no other character. -/
theorem normalizeMac_exact_iff (raw : Text) :
    ((∀ mac, normalizeMac raw = some mac → IsMacText raw ∧ mac = joinPairs (macDigits raw) ∧
        normalizeMac mac = some mac ∧
        ∀ other, normalizeMac other = some mac ↔ macDigits other = macDigits raw) ∧
      (¬ IsMacText raw → normalizeMac raw = none)) ↔
    ((macDigits raw).length = 12 → ∀ c ∈ raw, isAsciiHexdigit c ∨ isAsciiPunctuation c) := by
  constructor
  · rintro ⟨haccepted, -⟩ hlength
    exact (haccepted _ (normalizeMac_eq_some_iff.2 ⟨hlength, rfl⟩)).1.2
  · intro h
    constructor
    · intro mac hmac
      obtain ⟨hlength, rfl⟩ := normalizeMac_eq_some_iff.1 hmac
      refine ⟨⟨hlength, h hlength⟩, rfl, ?_, fun other => ?_⟩
      · rw [normalizeMac_eq_some_iff, macDigits_joinPairs]
        exact ⟨hlength, rfl⟩
      · rw [normalizeMac_eq_some_iff]
        constructor
        · rintro ⟨-, hsame⟩
          rw [← macDigits_joinPairs other, hsame, macDigits_joinPairs]
        · intro hsame
          rw [hsame]
          exact ⟨hlength, rfl⟩
    · intro hnot
      refine Option.eq_none_iff_forall_ne_some.2 fun mac hmac => hnot ?_
      have hlength := (normalizeMac_eq_some_iff.1 hmac).1
      exact ⟨hlength, h hlength⟩

/-- A host name in front of the digits is dropped with the punctuation. -/
theorem normalizeMac_host_name :
    ¬ IsMacText "zoo-001122334455" ∧
      normalizeMac "zoo-001122334455" = some "00:11:22:33:44:55".toList := by
  refine ⟨fun h => ?_, by decide⟩
  exact absurd (h.2 'z' (by decide)) (by decide)

end Abyssal.Radius
