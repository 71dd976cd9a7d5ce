import Mathlib.Data.List.Basic

/-!
# Text

Text is a list of characters. This file has the character classes and the operations on
text that input validation uses.
-/

/-- A text. -/
abbrev Abyssal.Text : Type := List Char

instance : Coe String Abyssal.Text := ⟨String.toList⟩

namespace Abyssal.Text

open List

variable (c : Char)

def isWhitespace : Bool :=
  let n := c.toNat
  (0x09 ≤ n && n ≤ 0x0D) || n = 0x20 || n = 0x85 || n = 0xA0 || n = 0x1680 ||
    (0x2000 ≤ n && n ≤ 0x200A) || n = 0x2028 || n = 0x2029 || n = 0x202F || n = 0x205F ||
    n = 0x3000

def isControl : Bool :=
  let n := c.toNat
  n ≤ 0x1F || (0x7F ≤ n && n ≤ 0x9F)

def isAsciiUppercase : Bool := 'A' ≤ c && c ≤ 'Z'

def isAsciiLowercase : Bool := 'a' ≤ c && c ≤ 'z'

def isAsciiDigit : Bool := '0' ≤ c && c ≤ '9'

def isAsciiAlphanumeric : Bool :=
  isAsciiUppercase c || isAsciiLowercase c || isAsciiDigit c

/-- A printing ASCII character that is neither a letter nor a digit nor the space. -/
def isAsciiPunctuation : Bool :=
  ('!' ≤ c && c ≤ '~') && !isAsciiAlphanumeric c

def isAsciiGraphic : Bool := 0x21 ≤ c.toNat && c.toNat ≤ 0x7E

theorem forall_mem_of_all {P : Char → Prop} [DecidablePred P] {s : Text}
    (h : s.all (P ·)) : ∀ c ∈ s, P c :=
  fun c hc => of_decide_eq_true (all_eq_true.1 h c hc)

def trim (s : Text) : Text :=
  ((s.dropWhile isWhitespace).reverse.dropWhile isWhitespace).reverse

def splitOn (sep : Char) : Text → List Text
  | [] => [[]]
  | c :: s =>
    if c = sep then [] :: splitOn sep s
    else
      match splitOn sep s with
      | [] => [[c]]
      | field :: fields => (c :: field) :: fields

def splitOnce (sep : Char) (s : Text) : Option (Text × Text) :=
  match s.dropWhile (· ≠ sep) with
  | [] => none
  | _ :: rest => some (s.takeWhile (· ≠ sep), rest)

def byteLength (s : Text) : ℕ := s.foldr (fun c n => c.utf8Size + n) 0

variable {c : Char}

theorem toNat_le_of_isAsciiAlphanumeric (h : isAsciiAlphanumeric c) : c.toNat ≤ 122 := by
  have hZ : ('Z' : Char).toNat = 90 := rfl
  have hz : ('z' : Char).toNat = 122 := rfl
  have h9 : ('9' : Char).toNat = 57 := rfl
  simp only [isAsciiAlphanumeric, isAsciiUppercase, isAsciiLowercase, isAsciiDigit,
    Bool.or_eq_true, Bool.and_eq_true, decide_eq_true_eq, Char.le_def, UInt32.le_iff_toNat_le,
    Char.toNat_val] at h
  omega

theorem isAsciiGraphic_of_isAsciiAlphanumeric (h : isAsciiAlphanumeric c) : isAsciiGraphic c := by
  have hA : ('A' : Char).toNat = 65 := rfl
  have ha : ('a' : Char).toNat = 97 := rfl
  have h0 : ('0' : Char).toNat = 48 := rfl
  have hle := toNat_le_of_isAsciiAlphanumeric h
  simp only [isAsciiAlphanumeric, isAsciiUppercase, isAsciiLowercase, isAsciiDigit,
    Bool.or_eq_true, Bool.and_eq_true, decide_eq_true_eq, Char.le_def, UInt32.le_iff_toNat_le,
    Char.toNat_val] at h
  simp only [isAsciiGraphic, Bool.and_eq_true, decide_eq_true_eq]
  omega

theorem isWhitespace_of_isAsciiGraphic (h : isAsciiGraphic c) : isWhitespace c = false := by
  simp only [isAsciiGraphic, Bool.and_eq_true, decide_eq_true_eq] at h
  simp only [isWhitespace, Bool.or_eq_false_iff, Bool.and_eq_false_iff, decide_eq_false_iff_not]
  omega

theorem isControl_of_isAsciiGraphic (h : isAsciiGraphic c) : isControl c = false := by
  simp only [isAsciiGraphic, Bool.and_eq_true, decide_eq_true_eq] at h
  simp only [isControl, Bool.or_eq_false_iff, Bool.and_eq_false_iff, decide_eq_false_iff_not]
  omega

variable {s : Text}

theorem mem_dropWhile_of_not {p : Char → Bool} (h : c ∈ s)
    (hc : p c = false) : c ∈ s.dropWhile p := by
  induction s with
  | nil => exact h
  | cons d s ih =>
    rw [dropWhile_cons]
    split_ifs with hd
    · rcases mem_cons.1 h with rfl | h
      · rw [hc] at hd
        cases hd
      · exact ih h
    · exact h

theorem mem_trim_iff (hc : isWhitespace c = false) : c ∈ trim s ↔ c ∈ s := by
  rw [trim, mem_reverse]
  constructor
  · intro h
    have h' := (dropWhile_suffix _).subset h
    exact (dropWhile_suffix _).subset (mem_reverse.1 h')
  · intro h
    exact mem_dropWhile_of_not (mem_reverse.2 (mem_dropWhile_of_not h hc)) hc

theorem mem_splitOn (sep : Char) (h : c ∈ s) : c = sep ∨ ∃ field ∈ splitOn sep s, c ∈ field := by
  induction s with
  | nil => cases h
  | cons d s ih =>
    rw [splitOn]
    split_ifs with hd
    · rcases mem_cons.1 h with rfl | h
      · exact .inl hd
      · refine (ih h).imp_right fun ⟨field, hfield, hc⟩ => ?_
        exact ⟨field, mem_cons_of_mem _ hfield, hc⟩
    · split
      · next hnil =>
        rcases mem_cons.1 h with rfl | h
        · exact .inr ⟨_, mem_cons_self, mem_cons_self⟩
        · refine (ih h).imp_right fun ⟨field, hfield, _⟩ => ?_
          rw [hnil] at hfield
          cases hfield
      · next first fields hsplit =>
        rcases mem_cons.1 h with rfl | h
        · exact .inr ⟨_, mem_cons_self, mem_cons_self⟩
        · refine (ih h).imp_right fun ⟨field, hfield, hc⟩ => ?_
          rw [hsplit] at hfield
          rcases mem_cons.1 hfield with rfl | hfield
          · exact ⟨_, mem_cons_self, mem_cons_of_mem _ hc⟩
          · exact ⟨field, mem_cons_of_mem _ hfield, hc⟩

theorem eq_of_splitOnce {sep : Char} {before after : Text}
    (h : splitOnce sep s = some (before, after)) : s = before ++ sep :: after := by
  rw [splitOnce] at h
  split at h
  · cases h
  · next c rest hdrop =>
    cases h
    have hsep : c = sep := by
      have hhead := head?_dropWhile_not (· ≠ sep) s
      rw [hdrop] at hhead
      simpa using hhead
    subst hsep
    rw [← hdrop, takeWhile_append_dropWhile]

/-!
## Lines, fields and tokens

How a text is cut into lines, into a bounded number of fields, at the first place where
another text stands in it, and into tokens.
-/

/-- A line without the carriage return before its line feed. -/
def dropCarriageReturn (line : Text) : Text :=
  if line.getLast? = some '\r' then line.dropLast else line

/-- Each line feed ends a line, with a carriage return before it; what stands after the last is a
line only if there is something. -/
def lines (s : Text) : List Text :=
  let fields := splitOn '\n' s
  fields.dropLast.map dropCarriageReturn ++ fields.getLast?.toList.filter (· ≠ [])

/-- At most `n` fields between separators; the last one is the rest of the text. -/
def splitN (sep : Char) : ℕ → Text → List Text
  | 0, _ => []
  | 1, s => [s]
  | n + 2, s =>
    match splitOnce sep s with
    | none => [s]
    | some (field, rest) => field :: splitN sep (n + 1) rest

def rsplitOnce (sep : Char) (s : Text) : Option (Text × Text) :=
  (splitOnce sep s.reverse).map fun (after, before) => (before.reverse, after.reverse)

/-- What stands before and after the first occurrence of a text. -/
def splitAtText (pattern : Text) : Text → Option (Text × Text)
  | [] => if pattern = [] then some ([], []) else none
  | c :: s =>
    match pattern.isPrefixOf? (c :: s) with
    | some rest => some ([], rest)
    | none => (splitAtText pattern s).map fun (before, after) => (c :: before, after)

def words (s : Text) : List Text := (s.splitOnP isWhitespace).filter (· ≠ [])

def toAsciiLowercase (s : Text) : Text :=
  s.map fun c => if isAsciiUppercase c then Char.ofNat (c.toNat + 32) else c

section

variable {s : Text} {c : Char}

theorem lowercase_of_isAsciiUppercase (h : isAsciiUppercase c) :
    isAsciiLowercase (Char.ofNat (c.toNat + 32)) ∧
      isAsciiUppercase (Char.ofNat (c.toNat + 32)) = false := by
  have hall : ∀ n ∈ range 91, 65 ≤ n → isAsciiLowercase (Char.ofNat (n + 32)) ∧
      isAsciiUppercase (Char.ofNat (n + 32)) = false := by
    decide
  have hA : ('A' : Char).toNat = 65 := rfl
  have hZ : ('Z' : Char).toNat = 90 := rfl
  simp only [isAsciiUppercase, Bool.and_eq_true, decide_eq_true_eq, Char.le_def,
    UInt32.le_iff_toNat_le, Char.toNat_val] at h
  exact hall c.toNat (mem_range.2 (by omega)) (by omega)

theorem toAsciiLowercase_of_forall (h : ∀ c ∈ s, isAsciiUppercase c = false) :
    toAsciiLowercase s = s := by
  refine (map_congr_left fun c hc => ?_).trans (map_id s)
  rw [h c hc]
  rfl

theorem toAsciiLowercase_toAsciiLowercase (s : Text) :
    toAsciiLowercase (toAsciiLowercase s) = toAsciiLowercase s := by
  refine toAsciiLowercase_of_forall fun c hc => ?_
  obtain ⟨_, -, rfl⟩ := mem_map.1 hc
  split_ifs with hupper
  · exact (lowercase_of_isAsciiUppercase hupper).2
  · exact eq_false_of_ne_true hupper

theorem mem_toAsciiLowercase (hc : c ∈ s) (h : isAsciiUppercase c = false) :
    c ∈ toAsciiLowercase s := by
  refine mem_map.2 ⟨c, hc, ?_⟩
  rw [h]
  rfl

theorem of_mem_toAsciiLowercase (h : c ∈ toAsciiLowercase s) (hc : isAsciiLowercase c = false) :
    c ∈ s := by
  obtain ⟨_, hd, rfl⟩ := mem_map.1 h
  split_ifs at hc ⊢ with hupper
  · rw [(lowercase_of_isAsciiUppercase hupper).1] at hc
    cases hc
  · exact hd

theorem byteLength_of_forall (h : ∀ c ∈ s, c.utf8Size = 1) : byteLength s = s.length := by
  induction s with
  | nil => rfl
  | cons c s ih =>
    rw [forall_mem_cons] at h
    rw [byteLength, foldr_cons, ← byteLength, ih h.2, h.1, length_cons, Nat.add_comm]

theorem isPrefixOf?_append (s t : Text) : s.isPrefixOf? (s ++ t) = some t :=
  isPrefixOf?_eq_some_iff_append_eq.2 rfl

theorem splitAtText_append (h : c ∉ s) (pattern t : Text) :
    splitAtText (c :: pattern) (s ++ (c :: (pattern ++ t))) = some (s, t) := by
  induction s with
  | nil =>
    have hstart := isPrefixOf?_append (c :: pattern) t
    rw [cons_append] at hstart
    rw [nil_append, splitAtText, hstart]
  | cons d s ih =>
    rw [mem_cons, not_or] at h
    simp [splitAtText, isPrefixOf?, h.1, ih h.2]

/-- What stands after the last occurrence of a pattern, or the whole text. -/
def afterLast (pattern s : Text) : Text :=
  match splitAtText pattern.reverse s.reverse with
  | some (after, _) => after.reverse
  | none => s

theorem afterLast_append (h : c ∉ s) (front pattern : Text) :
    afterLast (pattern ++ [c]) (front ++ (pattern ++ c :: s)) = s := by
  have hpattern : (pattern ++ [c]).reverse = c :: pattern.reverse := by simp
  have hline : (front ++ (pattern ++ c :: s)).reverse =
      s.reverse ++ c :: (pattern.reverse ++ front.reverse) := by
    simp
  rw [afterLast, hpattern, hline, splitAtText_append (by simpa using h)]
  exact reverse_reverse s

end

/-- The longest beginning of the text that takes at most `n` bytes in UTF-8. -/
def takeBytes : ℕ → Text → Text
  | _, [] => []
  | n, c :: s => if c.utf8Size ≤ n then c :: takeBytes (n - c.utf8Size) s else []

def ofNat (n : ℕ) : Text := Nat.toDigits 10 n

/-- The number of 64 bits that the text writes, with or without a plus sign. -/
def parseU64 (s : Text) : Option ℕ :=
  let digits := ("+".toList.isPrefixOf? s).getD s
  let value := digits.foldl (fun n c => 10 * n + (c.toNat - '0'.toNat)) 0
  if digits ≠ [] ∧ digits.all isAsciiDigit = true ∧ value < 18446744073709551616 then some value
  else none

def parseU32 (s : Text) : Option ℕ := (parseU64 s).filter (· < 4294967296)

end Abyssal.Text
