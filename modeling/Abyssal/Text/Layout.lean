import Abyssal.Text.Basic
import Mathlib.Data.List.DropRight

/-!
# Text put together and taken apart

A program that writes a text line by line and reads it back line by line gets its lines if none
of them has a line feed in it, and the words of a line if none of them has a blank in it. This
file has these two facts, and what trimming does to a line that was put together.
-/

namespace Abyssal.Text

open List Option

/-! ### Lines -/

def unlines (ls : List Text) : Text := ls.flatMap (· ++ ['\n'])

theorem unlines_cons (l : Text) (ls : List Text) : unlines (l :: ls) = l ++ '\n' :: unlines ls := by
  rw [unlines, flatMap_cons, append_assoc]
  rfl

theorem unlines_append (ls ls' : List Text) : unlines (ls ++ ls') = unlines ls ++ unlines ls' :=
  flatMap_append

variable {ε : Type*}

theorem unlines_map (write : ε → Text) (entries : List ε) :
    unlines (entries.map write) = entries.flatMap fun e => write e ++ ['\n'] :=
  flatMap_map write _ entries

theorem unlines_flatMap (write : ε → List Text) (entries : List ε) :
    unlines (entries.flatMap write) = (entries.map fun e => unlines (write e)).flatten := by
  rw [unlines, flatMap_assoc]
  rfl

variable {sep : Char} {field : Text}

theorem splitOn_eq (sep : Char) (s : Text) : splitOn sep s = List.splitOn sep s := by
  induction s with
  | nil => rfl
  | cons c s ih =>
    obtain ⟨_, _, hsplit⟩ := exists_cons_of_ne_nil (List.splitOn_ne_nil sep s)
    rw [splitOn, splitOn_cons_eq_if_modifyHead, ih, hsplit]
    simp

theorem splitOn_of_not_mem (h : sep ∉ field) : splitOn sep field = [field] := by
  rw [splitOn_eq, splitOn_eq_singleton h]

theorem splitOn_ne_nil (sep : Char) (s : Text) : splitOn sep s ≠ [] := by
  rw [splitOn_eq]
  exact List.splitOn_ne_nil sep s

theorem splitOn_append_sep (sep : Char) (s t : Text) :
    splitOn sep (s ++ sep :: t) = splitOn sep s ++ splitOn sep t := by
  simp only [splitOn_eq, splitOn_append_cons_self]

theorem splitOn_append_cons (h : sep ∉ field) (s : Text) :
    splitOn sep (field ++ sep :: s) = field :: splitOn sep s := by
  rw [splitOn_append_sep, splitOn_of_not_mem h, singleton_append]

variable {ls : List Text}

theorem splitOn_unlines (h : ∀ l ∈ ls, '\n' ∉ l) : splitOn '\n' (unlines ls) = ls ++ [[]] := by
  induction ls with
  | nil => rfl
  | cons l _ ih =>
    rw [unlines_cons, splitOn_append_cons (h l mem_cons_self),
      ih fun l' hl' => h l' (mem_cons_of_mem _ hl'), cons_append]

theorem lines_unlines_eq_map (h : ∀ l ∈ ls, '\n' ∉ l) :
    lines (unlines ls) = ls.map dropCarriageReturn := by
  simp [lines, splitOn_unlines h]

variable {line : Text}

theorem dropCarriageReturn_of_not_mem (h : '\r' ∉ line) : dropCarriageReturn line = line :=
  if_neg fun hlast => h (mem_of_getLast? hlast)

variable {s : Text} {c : Char} {p : Char → Bool} {w : Text}

/-- The pieces between separators: the longest runs without one. -/
theorem mem_splitOnP_iff :
    w ∈ s.splitOnP p ↔ ∃ before after, s = before ++ (w ++ after) ∧ (∀ c ∈ w, p c = false) ∧
      (∀ c ∈ before.getLast?, p c) ∧ ∀ c ∈ after.head?, p c := by
  constructor
  · intro h
    induction hn : s.length using Nat.strongRecOn generalizing s with
    | _ n ih =>
      -- the text up to the first separator, and what follows that
      have hfirst := takeWhile_append_dropWhile (p := fun c => !p c) (l := s)
      have hfree := all_eq_true.1 (@all_takeWhile _ (fun c => !p c) s)
      have hhead := head?_dropWhile_not (fun c => !p c) s
      generalize s.takeWhile _ = first at hfirst hfree
      simp only [Bool.not_eq_true'] at hfree
      rcases hdrop : s.dropWhile _ with - | ⟨c, rest⟩ <;> rw [hdrop] at hfirst hhead <;>
        subst hfirst
      · rw [append_nil, splitOnP_eq_singleton hfree, mem_singleton] at h
        exact ⟨[], [], by simp [h], h ▸ hfree, by simp, by simp⟩
      · have hc : p c := by simpa using hhead
        rw [splitOnP_append_cons _ _ hc, splitOnP_eq_singleton hfree] at h
        rcases mem_append.1 h with h | h
        · rw [mem_singleton.1 h]
          exact ⟨[], c :: rest, rfl, hfree, by simp, by simpa using hc⟩
        · obtain ⟨before, after, rfl, hw, hbefore, hafter⟩ := ih rest.length
            (by rw [← hn, length_append, length_cons]; omega) h rfl
          refine ⟨first ++ c :: before, after, by simp, hw, ?_, hafter⟩
          rw [getLast?_append, getLast?_cons]
          cases hlast : before.getLast? with
          | none => simpa using hc
          | some d => simpa using hbefore d hlast
  · rintro ⟨before, after, rfl, hw, hbefore, hafter⟩
    have hrest : w ∈ (w ++ after).splitOnP p := by
      cases after with
      | nil => simp [splitOnP_eq_singleton hw]
      | cons c =>
        rw [splitOnP_append_cons _ _ (hafter c rfl), splitOnP_eq_singleton hw]
        exact mem_append_left _ mem_cons_self
    rcases eq_nil_or_concat' before with rfl | ⟨before, c, rfl⟩
    · exact hrest
    · rw [append_assoc, singleton_append, splitOnP_append_cons _ _ (hbefore c (by simp))]
      exact mem_append_right _ hrest

theorem of_mem_splitOn (h : field ∈ splitOn sep s) : sep ∉ field ∧ field ⊆ s := by
  rw [splitOn_eq, splitOn_eq_splitOnP] at h
  obtain ⟨_, _, rfl, hfree, -⟩ := mem_splitOnP_iff.1 h
  refine ⟨fun hmem => ?_, fun c hc => by simp [hc]⟩
  simpa using hfree sep hmem

theorem dropCarriageReturn_subset (line : Text) : dropCarriageReturn line ⊆ line := by
  rw [dropCarriageReturn]
  split_ifs
  · exact dropLast_subset line
  · exact Subset.refl line

theorem lineFeed_not_mem_of_mem_lines (h : line ∈ lines s) : '\n' ∉ line := by
  rw [lines] at h
  rcases mem_append.1 h with h | h
  · obtain ⟨field, hfield, rfl⟩ := mem_map.1 h
    exact fun hmem => (of_mem_splitOn (dropLast_subset _ hfield)).1
      (dropCarriageReturn_subset field hmem)
  · have hlast : line ∈ (splitOn '\n' s).getLast? := by
      simpa using mem_of_mem_filter h
    exact (of_mem_splitOn (mem_of_getLast? hlast)).1

def OneLine (line : Text) : Prop := '\n' ∉ line ∧ '\r' ∉ line

instance (line : Text) : Decidable (OneLine line) :=
  inferInstanceAs (Decidable ('\n' ∉ line ∧ '\r' ∉ line))

theorem oneLine_of_forall (h : ∀ c ∈ line, isControl c = false) : OneLine line :=
  ⟨fun hmem => absurd (h _ hmem) (by decide), fun hmem => absurd (h _ hmem) (by decide)⟩

theorem OneLine.append {line' : Text} (h : OneLine line) (h' : OneLine line') :
    OneLine (line ++ line') := by
  simp only [OneLine, mem_append, not_or]
  exact ⟨⟨h.1, h'.1⟩, h.2, h'.2⟩

theorem lines_unlines (h : ∀ l ∈ ls, OneLine l) : lines (unlines ls) = ls := by
  rw [lines_unlines_eq_map fun l hl => (h l hl).1]
  conv_rhs => rw [← map_id ls]
  exact map_congr_left fun l hl => dropCarriageReturn_of_not_mem (h l hl).2

theorem filterMap_lines_unlines {read : Text → Option ε} {write : ε → Text}
    {front : List Text} {entries : List ε} (hone : ∀ l ∈ front, OneLine l)
    (hnone : ∀ l ∈ front, read l = none) (hentries : ∀ e ∈ entries, OneLine (write e)) :
    (lines (unlines (front ++ entries.map write))).filterMap read =
      entries.filterMap fun e => read (write e) := by
  have hall : ∀ l ∈ front ++ entries.map write, OneLine l := by
    intro l hl
    rcases mem_append.1 hl with hl | hl
    · exact hone l hl
    · obtain ⟨e, he, rfl⟩ := mem_map.1 hl
      exact hentries e he
  rw [lines_unlines hall, filterMap_append, filterMap_eq_nil_iff.2 hnone, filterMap_map]
  rfl

variable {before : Text}

theorem splitOnce_append_cons (h : sep ∉ before)
    (after : Text) : splitOnce sep (before ++ sep :: after) = some (before, after) := by
  have hbefore : ∀ c ∈ before, (decide (c ≠ sep)) := by
    intro c hc
    exact decide_eq_true fun hcs => h (hcs ▸ hc)
  rw [splitOnce, dropWhile_append_of_pos hbefore, takeWhile_append_of_pos hbefore]
  simp

variable {after : Text}

theorem rsplitOnce_append_cons (h : sep ∉ after)
    (before : Text) : rsplitOnce sep (before ++ sep :: after) = some (before, after) := by
  have hreverse : (before ++ sep :: after).reverse = after.reverse ++ sep :: before.reverse := by
    simp
  rw [rsplitOnce, hreverse, splitOnce_append_cons (mem_reverse.not.2 h)]
  simp

theorem eq_of_rsplitOnce
    (h : rsplitOnce sep s = some (before, after)) : s = before ++ sep :: after := by
  obtain ⟨⟨_, _⟩, hsplit, hpair⟩ := map_eq_some_iff.1 h
  cases hpair
  have hreverse := congrArg reverse (eq_of_splitOnce hsplit)
  rw [reverse_reverse] at hreverse
  rw [hreverse]
  simp

theorem isSome_splitAtText_iff {pattern : Text} :
    (splitAtText pattern s).isSome ↔ pattern <:+: s := by
  induction s with
  | nil =>
    rw [splitAtText, infix_nil]
    split_ifs with h
    · exact iff_of_true rfl h
    · exact iff_of_false Bool.false_ne_true h
  | cons c s ih =>
    rw [splitAtText, infix_cons_iff, ← ih]
    cases h : pattern.isPrefixOf? (c :: s) with
    | some rest =>
      have hrest := isPrefixOf?_eq_some_iff_append_eq.1 h
      exact iff_of_true rfl (.inl ⟨rest, hrest⟩)
    | none =>
      have hbegin : ¬pattern <+: c :: s := by
        rintro ⟨_, hrest⟩
        rw [isPrefixOf?_eq_some_iff_append_eq.2 hrest] at h
        cases h
      simp [hbegin]

/-! ### Trimming -/

theorem trim_eq_rdropWhile (s : Text) :
    trim s = (s.dropWhile isWhitespace).rdropWhile isWhitespace :=
  rfl

theorem rdropWhile_append (p : Char → Bool) (s t : Text) :
    (s ++ t).rdropWhile p =
      if t.rdropWhile p = [] then s.rdropWhile p else s ++ t.rdropWhile p := by
  rw [rdropWhile, reverse_append, dropWhile_append]
  simp only [rdropWhile, List.isEmpty_iff, reverse_eq_nil_iff]
  split_ifs
  · rfl
  · simp

theorem rdropWhile_append_cons (hc : p c = false)
    (s s' : Text) : (s ++ c :: s').rdropWhile p = s ++ c :: s'.rdropWhile p := by
  have hcons : (c :: s').rdropWhile p = c :: s'.rdropWhile p := by
    rw [← singleton_append, rdropWhile_append]
    split_ifs with h
    · rw [h, rdropWhile_singleton, hc]
      rfl
    · rfl
  rw [rdropWhile_append, hcons, if_neg (cons_ne_nil _ _)]

theorem dropWhile_rdropWhile (p : Char → Bool) (s : Text) :
    (s.rdropWhile p).dropWhile p = (s.dropWhile p).rdropWhile p := by
  induction s using reverseRecOn with
  | nil => rfl
  | append_singleton s c ih =>
    rw [rdropWhile_concat, dropWhile_append]
    by_cases hc : p c
    · rw [if_pos hc, ih]
      split_ifs with hs
      · rw [isEmpty_iff.1 hs, dropWhile_cons_of_pos hc]
        rfl
      · rw [rdropWhile_concat, if_pos hc]
    · rw [if_neg hc, dropWhile_append]
      split_ifs
      · rw [dropWhile_cons_of_neg hc, rdropWhile_singleton, if_neg hc]
      · rw [rdropWhile_concat, if_neg hc]

theorem trim_rdropWhile (s : Text) : trim (s.rdropWhile isWhitespace) = trim s := by
  rw [trim_eq_rdropWhile, dropWhile_rdropWhile, rdropWhile_idempotent, trim_eq_rdropWhile]

theorem trim_cons_of_isWhitespace (hc : isWhitespace c) (s : Text) : trim (c :: s) = trim s := by
  rw [trim, dropWhile_cons_of_pos hc, trim]

variable {pad : Text}

theorem trim_append_of_forall (h : ∀ c ∈ pad, isWhitespace c) : trim (s ++ pad) = trim s := by
  rw [← trim_rdropWhile, rdropWhile_append, if_pos (rdropWhile_eq_nil_iff.2 h), trim_rdropWhile]

theorem trim_cons (hc : isWhitespace c = false) (s : Text) :
    trim (c :: s) = c :: s.rdropWhile isWhitespace := by
  rw [trim_eq_rdropWhile, dropWhile_cons_of_neg (by simp [hc])]
  exact rdropWhile_append_cons hc [] s

theorem rdropWhile_of_forall (h : ∀ c ∈ s, p c = false) : s.rdropWhile p = s := by
  rw [rdropWhile_eq_self_iff]
  intro hs
  simp [h _ (getLast_mem hs)]

theorem rdropWhile_append_of_forall (h : ∀ c ∈ s, p c = false)
    (t : Text) : (s ++ t).rdropWhile p = s ++ t.rdropWhile p := by
  rw [rdropWhile_append]
  split_ifs with ht
  · rw [ht, append_nil, rdropWhile_of_forall h]
  · rfl

theorem trim_of_forall (h : ∀ c ∈ s, isWhitespace c = false) : trim s = s := by
  cases s with
  | nil => rfl
  | cons c =>
    rw [trim_cons (h c mem_cons_self), rdropWhile_of_forall fun d hd => h d (mem_cons_of_mem _ hd)]

theorem head?_trim (s : Text) : (trim s).head? = s.find? fun c => !isWhitespace c := by
  induction s with
  | nil => rfl
  | cons c s ih =>
    by_cases hc : isWhitespace c
    · rw [trim_cons_of_isWhitespace hc, ih, find?_cons_of_neg (by simp [hc])]
    · rw [trim_cons (Bool.eq_false_iff.2 hc), find?_cons_of_pos (by simp [hc])]
      rfl

theorem trim_append_left (h : ∀ c ∈ pad, isWhitespace c) (s : Text) : trim (pad ++ s) = trim s := by
  rw [trim, dropWhile_append_of_pos h, trim]

theorem trim_trim (s : Text) : trim (trim s) = trim s := by
  rw [trim_eq_rdropWhile s, trim_rdropWhile, trim_eq_rdropWhile, dropWhile_idempotent]

theorem trim_eq_self_iff :
    trim s = s ↔ (∀ c ∈ s.head?, isWhitespace c = false) ∧
      ∀ c ∈ s.getLast?, isWhitespace c = false := by
  have hboth : trim s = s ↔ s.dropWhile isWhitespace = s ∧ s.rdropWhile isWhitespace = s := by
    rw [trim_eq_rdropWhile]
    constructor
    · intro h
      have hbegin := rdropWhile_prefix isWhitespace (s.dropWhile isWhitespace)
      rw [h] at hbegin
      have hdrop : s.dropWhile isWhitespace = s :=
        (dropWhile_suffix _).eq_of_length_le hbegin.length_le
      exact ⟨hdrop, by rwa [hdrop] at h⟩
    · rintro ⟨hdrop, hrdrop⟩
      rw [hdrop, hrdrop]
  rw [hboth, rdropWhile_eq_self_iff]
  refine and_congr ?_ ?_
  · cases s with
    | nil => simp
    | cons => simp [dropWhile_eq_self_iff]
  · constructor
    · intro h c hc
      obtain ⟨hne, rfl⟩ := mem_getLast?_eq_getLast hc
      simpa using h hne
    · intro h hne
      simpa using h _ (getLast_mem_getLast? hne)

theorem trim_dropCarriageReturn (line : Text) : trim (dropCarriageReturn line) = trim line := by
  rw [dropCarriageReturn]
  split_ifs with hlast
  · obtain ⟨_, rfl⟩ := getLast?_eq_some_iff.1 hlast
    rw [dropLast_concat, trim_append_of_forall (forall_mem_singleton.2 rfl)]
  · rfl

/-! ### Keys and values -/

/-- The key and the value of a line with an equals sign, without the whitespace around them. -/
def keyValue (line : Text) : Option (Text × Text) :=
  (splitOnce '=' (trim line)).map fun pair => (trim pair.1, trim pair.2)

theorem keyValue_append {indent key : Text}
    (hindent : ∀ d ∈ indent, isWhitespace d) (hc : isWhitespace c = false)
    (hkey : trim (c :: key) = c :: key) (heq : '=' ∉ c :: key)
    (hpad : ∀ d ∈ pad, isWhitespace d) (value : Text) :
    keyValue (indent ++ (c :: key ++ (pad ++ '=' :: value))) = some (c :: key, trim value) := by
  have hline : trim (indent ++ (c :: key ++ (pad ++ '=' :: value))) =
      c :: key ++ pad ++ '=' :: value.rdropWhile isWhitespace := by
    rw [trim_append_left hindent, ← append_assoc, cons_append, cons_append,
      trim_cons hc, rdropWhile_append_cons rfl]
    rfl
  have hsplit : '=' ∉ c :: key ++ pad := by
    intro hmem
    rcases mem_append.1 hmem with hmem | hmem
    · exact heq hmem
    · cases hpad _ hmem
  rw [keyValue, hline, splitOnce_append_cons hsplit, map_some, trim_append_of_forall hpad,
    hkey, trim_rdropWhile]

/-! ### Words -/

def unwords (ws : List Text) : Text := [' '].intercalate ws

/-- A text that is its words with single spaces between them. -/
def SingleSpaced (s : Text) : Prop := unwords (words s) = s

instance (s : Text) : Decidable (SingleSpaced s) :=
  inferInstanceAs (Decidable (unwords (words s) = s))

/-- A word: at least one character, and no whitespace. -/
def IsWord (w : Text) : Prop := w ≠ [] ∧ ∀ c ∈ w, isWhitespace c = false

instance (w : Text) : Decidable (IsWord w) :=
  @instDecidableAnd _ _ _ (decidableBAll _ w)

theorem words_append_cons (hc : isWhitespace c) (s s' : Text) :
    words (s ++ c :: s') = words s ++ words s' := by
  rw [words, splitOnP_append_cons _ _ hc, filter_append]
  rfl

theorem words_of_isWord (h : IsWord w) : words w = [w] := by
  rw [words, splitOnP_eq_singleton h.2]
  simp [h.1]

theorem words_nil : words [] = [] := rfl

theorem words_dropWhile (s : Text) : words (s.dropWhile isWhitespace) = words s := by
  induction s with
  | nil => rfl
  | cons c s ih =>
    by_cases hc : isWhitespace c
    · rw [dropWhile_cons_of_pos hc, ih]
      exact (words_append_cons hc [] s).symm
    · rw [dropWhile_cons_of_neg hc]

theorem words_rdropWhile (s : Text) : words (s.rdropWhile isWhitespace) = words s := by
  induction s using reverseRecOn with
  | nil => rfl
  | append_singleton s c ih =>
    rw [rdropWhile_concat]
    split_ifs with hc
    · rw [ih, words_append_cons hc, words_nil, append_nil]
    · rfl

theorem words_trim (s : Text) : words (trim s) = words s := by
  rw [trim_eq_rdropWhile, words_rdropWhile, words_dropWhile]

theorem isWord_of_mem_words (h : w ∈ words s) : IsWord w := by
  obtain ⟨hw, hne⟩ := mem_filter.1 h
  obtain ⟨-, -, -, hfree, -⟩ := mem_splitOnP_iff.1 hw
  exact ⟨by simpa using hne, hfree⟩

variable {ws : List Text}

theorem words_unwords (h : ∀ w ∈ ws, IsWord w) : words (unwords ws) = ws := by
  induction ws with
  | nil => rfl
  | cons w ws ih =>
    have hw : words w = [w] := words_of_isWord (h w mem_cons_self)
    have hws := ih fun w' hw' => h w' (mem_cons_of_mem _ hw')
    cases ws with
    | nil => rw [unwords, intercalate_singleton, hw]
    | cons w' ws =>
      rw [unwords, intercalate_cons_cons, append_assoc]
      exact (words_append_cons rfl w (unwords (w' :: ws))).trans (by rw [hw, hws]; rfl)

theorem head?_unwords (hw : w ≠ []) (ws : List Text) : (unwords (w :: ws)).head? = w.head? := by
  obtain ⟨_, _, rfl⟩ := exists_cons_of_ne_nil hw
  cases ws with
  | nil => rw [unwords, intercalate_singleton]
  | cons =>
    rw [unwords]
    rfl

theorem trim_unwords (h : ∀ w ∈ ws, IsWord w) : trim (unwords ws) = unwords ws := by
  induction ws with
  | nil => rfl
  | cons w ws ih =>
    obtain ⟨hne, hword⟩ := h w mem_cons_self
    cases ws with
    | nil =>
      rw [unwords, intercalate_singleton]
      exact trim_of_forall hword
    | cons w' ws =>
      have htail := trim_eq_self_iff.1 (ih fun v hv => h v (mem_cons_of_mem _ hv))
      have hw' : w' ≠ [] := (h w' (by simp)).1
      have hrest : [' '].intercalate (w' :: ws) ≠ [] := by
        intro hnil
        have hhead := head?_unwords hw' ws
        rw [unwords, hnil] at hhead
        exact hw' (head?_eq_none_iff.1 hhead.symm)
      rw [trim_eq_self_iff, head?_unwords hne]
      refine ⟨fun c hc => hword c (mem_of_head? hc), ?_⟩
      rw [unwords, intercalate_cons_cons, getLast?_append_of_ne_nil _ hrest]
      exact htail.2

/-! ### Numbers -/

variable {n : ℕ}

theorem isAsciiDigit_of_mem_ofNat (h : c ∈ ofNat n) : isAsciiDigit c :=
  Nat.isDigit_of_mem_toDigits (by decide) (by decide) h

theorem isWhitespace_of_mem_ofNat (h : c ∈ ofNat n) : isWhitespace c = false := by
  refine isWhitespace_of_isAsciiGraphic (isAsciiGraphic_of_isAsciiAlphanumeric ?_)
  rw [isAsciiAlphanumeric, isAsciiDigit_of_mem_ofNat h, Bool.or_true]

theorem not_mem_ofNat (hc : isAsciiDigit c = false) (n : ℕ) : c ∉ ofNat n := fun h =>
  nomatch (hc.symm.trans (isAsciiDigit_of_mem_ofNat h))

theorem parseU64_ofNat_eq (n : ℕ) :
    parseU64 (ofNat n) = if n < 18446744073709551616 then some n else none := by
  have hplus : "+".toList.isPrefixOf? (ofNat n) = none := by
    cases hdigits : ofNat n with
    | nil => rfl
    | cons c digits =>
      have hc := isAsciiDigit_of_mem_ofNat (hdigits ▸ mem_cons_self : c ∈ ofNat n)
      have hne : ('+' == c) = false := by
        rw [beq_eq_false_iff_ne]
        rintro rfl
        exact Bool.false_ne_true hc
      show isPrefixOf? ['+'] (c :: digits) = none
      rw [isPrefixOf?, hne]
      rfl
  have hvalue : (ofNat n).foldl (fun n c => 10 * n + (c.toNat - '0'.toNat)) 0 = n := by
    rw [← Nat.ofDigitChars_eq_foldl]
    exact Nat.ofDigitChars_ten_toDigits
  have hall : (ofNat n).all isAsciiDigit := all_eq_true.2 fun c hc => isAsciiDigit_of_mem_ofNat hc
  rw [parseU64, hplus]
  refine if_congr ⟨fun h => ?_, fun h => ⟨Nat.toDigits_ne_nil, hall, ?_⟩⟩ (congrArg some hvalue) rfl
  · exact hvalue ▸ h.2.2
  · exact hvalue.symm ▸ h

theorem parseU64_ofNat (h : n < 18446744073709551616) : parseU64 (ofNat n) = some n := by
  rw [parseU64_ofNat_eq, if_pos h]

theorem parseU32_ofNat (n : ℕ) : parseU32 (ofNat n) = if n < 4294967296 then some n else none := by
  rw [parseU32, parseU64_ofNat_eq]
  by_cases h : n < 4294967296
  · rw [if_pos (by omega), filter_some, if_pos (decide_eq_true h), if_pos h]
  · rw [if_neg h]
    split_ifs
    · exact filter_some_neg (by simpa using h)
    · rfl

end Abyssal.Text
