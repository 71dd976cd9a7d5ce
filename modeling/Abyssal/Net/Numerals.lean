import Abyssal.Text.Basic

/-!
# Numerals

Numbers as text in a radix of at most sixteen, without leading zeros, and a reader of them
that takes every digit it sees.
-/

namespace Abyssal.Net

open List

/-! ## Digits -/

def toDigit (radix : ℕ) (c : Char) : Option ℕ :=
  let n := c.toNat
  let value :=
    if 48 ≤ n ∧ n ≤ 57 then n - 48
    else if 97 ≤ n ∧ n ≤ 122 then n - 97 + 10
    else if 65 ≤ n ∧ n ≤ 90 then n - 65 + 10
    else radix
  if value < radix then some value else none

variable {radix : ℕ}

open Nat

theorem toDigit_digitChar {d : ℕ} (hd : d < radix) (hradix : radix ≤ 16) :
    toDigit radix (digitChar d) = some d := by
  have hall : ∀ r ∈ range 17, ∀ e ∈ range r, toDigit r (digitChar e) = some e := by decide
  exact hall radix (mem_range.2 (by omega)) d (mem_range.2 hd)

def digitsOf (radix : ℕ) : ℕ → ℕ → List ℕ
  | 0, _ => []
  | k + 1, n => if n < radix then [n] else digitsOf radix k (n / radix) ++ [n % radix]

def valueOf (radix : ℕ) (digits : List ℕ) : ℕ :=
  digits.foldl (fun value digit => value * radix + digit) 0

theorem valueOf_append_singleton (radix : ℕ) (digits : List ℕ) (d : ℕ) :
    valueOf radix (digits ++ [d]) = valueOf radix digits * radix + d := by
  rw [valueOf, foldl_append]
  rfl

theorem length_digitsOf_le (radix k n : ℕ) : (digitsOf radix k n).length ≤ k := by
  induction k generalizing n with
  | zero => exact Nat.le_refl 0
  | succ k ih =>
    rw [digitsOf]
    split_ifs
    · exact succ_le_succ (zero_le k)
    · rw [length_append]
      exact succ_le_succ (ih _)

theorem digitsOf_ne_nil (radix k n : ℕ) : digitsOf radix (k + 1) n ≠ [] := by
  rw [digitsOf]
  split_ifs <;> simp

theorem lt_of_mem_digitsOf {k n d : ℕ} (hradix : 0 < radix) (h : d ∈ digitsOf radix k n) :
    d < radix := by
  induction k generalizing n with
  | zero => cases h
  | succ k ih =>
    rw [digitsOf] at h
    split_ifs at h with hn
    · rwa [mem_singleton.1 h]
    · rcases mem_append.1 h with h | h
      · exact ih h
      · rw [mem_singleton.1 h]
        exact mod_lt n hradix

theorem valueOf_digitsOf {k n : ℕ} (h : n < Nat.pow radix k) :
    valueOf radix (digitsOf radix k n) = n := by
  induction k generalizing n with
  | zero =>
    rw [lt_one_iff.1 h]
    rfl
  | succ k ih =>
    rw [digitsOf]
    split_ifs with hn
    · rw [valueOf, foldl_cons, foldl_nil, Nat.zero_mul, Nat.zero_add]
    · rw [valueOf_append_singleton, ih (Nat.div_lt_of_lt_mul (by rwa [Nat.mul_comm])), div_add_mod']

theorem head?_digitsOf_ne_zero {k n : ℕ} (hn : 0 < n) (h : n < Nat.pow radix k) :
    (digitsOf radix k n).head? ≠ some 0 := by
  induction k generalizing n with
  | zero => exact absurd (lt_one_iff.1 h) (Nat.ne_of_gt hn)
  | succ k ih =>
    rw [digitsOf]
    split_ifs with hlt
    · simpa using Nat.ne_of_gt hn
    · have hradix : 0 < radix := Nat.pos_of_ne_zero (by
        rintro rfl
        exact not_lt_zero n h)
      have hdiv : 0 < n / radix := div_pos (Nat.le_of_not_lt hlt) hradix
      have hbound : n / radix < Nat.pow radix k := Nat.div_lt_of_lt_mul (by rwa [Nat.mul_comm])
      have hhead := ih hdiv hbound
      cases hdigits : digitsOf radix k (n / radix) with
      | nil =>
        cases k with
        | zero => exact absurd (lt_one_iff.1 hbound) (Nat.ne_of_gt hdiv)
        | succ k => exact absurd hdigits (digitsOf_ne_nil radix k _)
      | cons =>
        rwa [hdigits] at hhead

/-! ## Reading -/

def showNumber (radix k n : ℕ) : Text := (digitsOf radix k n).map Nat.digitChar

def readDigits (radix : ℕ) : Text → List ℕ × Text
  | [] => ([], [])
  | c :: s =>
    match toDigit radix c with
    | some d => (d :: (readDigits radix s).1, (readDigits radix s).2)
    | none => ([], c :: s)

/-- All the digits at the front of the text, at most `maxDigits`, as a number below a bound. -/
def readNumber (radix maxDigits : ℕ) (allowZeroPrefix : Bool) (bound : ℕ) (s : Text) :
    Option (ℕ × Text) :=
  let digits := (readDigits radix s).1
  if maxDigits < digits.length then none
  else if digits.length = 0 then none
  else if !allowZeroPrefix && digits.head? = some 0 && 1 < digits.length then none
  else if valueOf radix digits < bound then
    some (valueOf radix digits, (readDigits radix s).2)
  else none

def Stops (radix : ℕ) (s : Text) : Prop := ∀ c, s.head? = some c → toDigit radix c = none

theorem readDigits_of_stops {s : Text} (h : Stops radix s) : readDigits radix s = ([], s) := by
  cases s with
  | nil => rfl
  | cons c => rw [readDigits, h c rfl]

variable {rest : Text}

theorem readDigits_append (hradix : radix ≤ 16) {digits : List ℕ}
    (hdigits : ∀ d ∈ digits, d < radix) (hrest : Stops radix rest) :
    readDigits radix (digits.map digitChar ++ rest) = (digits, rest) := by
  induction digits with
  | nil => exact readDigits_of_stops hrest
  | cons d _ ih =>
    rw [map_cons, cons_append, readDigits, toDigit_digitChar (hdigits d mem_cons_self) hradix,
      ih fun e he => hdigits e (mem_cons_of_mem d he)]

theorem readNumber_showNumber {k n bound : ℕ} (allowZeroPrefix : Bool)
    (hradix : 0 < radix ∧ radix ≤ 16) (hn : n < Nat.pow radix (k + 1)) (hbound : n < bound)
    (hrest : Stops radix rest) :
    readNumber radix (k + 1) allowZeroPrefix bound (showNumber radix (k + 1) n ++ rest) =
      some (n, rest) := by
  have hdigits : ∀ d ∈ digitsOf radix (k + 1) n, d < radix :=
    fun d hd => lt_of_mem_digitsOf hradix.1 hd
  have hzero : (digitsOf radix (k + 1) n).head? = some 0 →
      (digitsOf radix (k + 1) n).length ≤ 1 := by
    intro hhead
    have hn0 : n = 0 := Nat.eq_zero_of_not_pos fun hpos => head?_digitsOf_ne_zero hpos hn hhead
    rw [hn0, digitsOf, if_pos hradix.1]
    exact Nat.le_refl 1
  rw [readNumber, showNumber, readDigits_append hradix.2 hdigits hrest]
  rw [if_neg (Nat.not_lt.2 (length_digitsOf_le radix (k + 1) n)),
    if_neg fun h => digitsOf_ne_nil radix k n (length_eq_zero_iff.1 h), if_neg,
    valueOf_digitsOf hn, if_pos hbound]
  simp only [Bool.and_eq_true, decide_eq_true_eq]
  rintro ⟨⟨-, hhead⟩, hlen⟩
  exact absurd hlen (Nat.not_lt.2 (hzero hhead))

theorem readDigits_eq {radix : ℕ} {s : Text} :
    ∃ run, s = run ++ (readDigits radix s).2 ∧ run.length = (readDigits radix s).1.length ∧
      ∀ c ∈ run, toDigit radix c ≠ none := by
  induction s with
  | nil => exact ⟨[], rfl, rfl, nofun⟩
  | cons c s ih =>
    rw [readDigits]
    cases hc : toDigit radix c with
    | none => exact ⟨[], rfl, rfl, nofun⟩
    | some =>
      obtain ⟨run, hs, hlen, hrun⟩ := ih
      refine ⟨c :: run, congrArg (c :: ·) hs, congrArg (· + 1) hlen, ?_⟩
      intro e he
      rcases mem_cons.1 he with rfl | he
      · rw [hc]
        exact nofun
      · exact hrun e he

theorem eq_append_of_readNumber {maxDigits bound : ℕ} {allowZeroPrefix : Bool} {s : Text} {n : ℕ}
    (h : readNumber radix maxDigits allowZeroPrefix bound s = some (n, rest)) :
    ∃ run, s = run ++ rest ∧ run ≠ [] ∧ ∀ c ∈ run, toDigit radix c ≠ none := by
  rw [readNumber] at h
  split_ifs at h with hmax hnone hprefix hbound
  cases h
  obtain ⟨run, hs, hlen, hrun⟩ := @readDigits_eq radix s
  refine ⟨run, hs, ?_, hrun⟩
  rintro rfl
  exact hnone hlen.symm

theorem readNumber_of_stops {maxDigits bound : ℕ} {allowZeroPrefix : Bool} {s : Text}
    (h : Stops radix s) : readNumber radix maxDigits allowZeroPrefix bound s = none := by
  rw [readNumber, readDigits_of_stops h]
  exact (if_neg (not_lt_zero maxDigits)).trans (if_pos rfl)

end Abyssal.Net
