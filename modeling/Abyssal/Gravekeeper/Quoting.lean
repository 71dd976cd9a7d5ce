import Abyssal.PowerShell.Tokens

/-!
# Values in PowerShell scripts

`psQuote` puts an apostrophe before and after a value and doubles those inside. The typographic
quotes, U+2018 to U+201B, go through undoubled. A value is read back exactly when it has none of
them, by counting the characters that are read.
-/

namespace Abyssal.Gravekeeper

open PowerShell Bool

/-! ## Quoting -/

def doubled (s : Text) : Text :=
  s.flatMap fun c => if c = '\'' then ['\'', '\''] else [c]

def psQuote (s : Text) : Text := '\'' :: (doubled s ++ ['\''])

/-- The single quotes that are not the apostrophe. -/
def isTypographic (c : Char) : Bool := 0x2018 ≤ c.toNat && c.toNat ≤ 0x201B

def Plain (s : Text) : Prop := ∀ c ∈ s, isTypographic c = false

instance (s : Text) : Decidable (Plain s) := List.decidableBAll _ s

variable {s : Text}

theorem plain_iff_notMem : Plain s ↔ ∀ c, isTypographic c → c ∉ s := by
  constructor
  · intro h c htyp hc
    rw [h c hc] at htyp
    cases htyp
  · intro h c hc
    rw [← not_eq_true]
    exact fun htyp => h c htyp hc

theorem isSingleQuote_iff {c : Char} : isSingleQuote c ↔ c = '\'' ∨ isTypographic c := by
  rw [isSingleQuote, or_eq_true, decide_eq_true_eq, isTypographic]

def typographics (s : Text) : ℕ := s.countP isTypographic

theorem plain_iff : Plain s ↔ typographics s = 0 := by
  rw [typographics, List.countP_eq_zero, Plain]
  simp

theorem length_doubled (s : Text) : s.length + quotes s = (doubled s).length + typographics s := by
  induction s with
  | nil => rfl
  | cons c s ih =>
    rw [quotes] at ih ⊢
    rw [typographics] at ih ⊢
    rw [doubled] at ih ⊢
    rw [List.flatMap_cons, List.length_append, List.length_cons, List.countP_cons, List.countP_cons]
    by_cases hc : c = '\''
    · subst hc
      have h₁ : isSingleQuote '\'' := by decide
      have h₂ : isTypographic '\'' = false := by decide
      rw [if_pos h₁, if_pos rfl, h₂]
      simp only [List.length_cons, List.length_nil, false_eq_true, if_false]
      omega
    · have hiff : isSingleQuote c = isTypographic c := by
        rw [Bool.eq_iff_iff, isSingleQuote_iff]
        exact or_iff_right hc
      rw [hiff, if_neg hc, List.length_singleton]
      omega

theorem length_psQuote (s : Text) : (psQuote s).length = (doubled s).length + 2 := by
  rw [psQuote, List.length_cons, List.length_append, List.length_singleton]

theorem read_doubled (h : Plain s) (value : Text) :
    run (.literal value) (doubled s) = .literal (value ++ s) ∧
      emitted (.literal value) (doubled s) = [] := by
  induction s generalizing value with
  | nil => exact ⟨by rw [List.append_nil]; rfl, rfl⟩
  | cons c s ih =>
    obtain ⟨hrun, hemit⟩ := ih (fun d hd => h d (List.mem_cons_of_mem c hd)) (value ++ [c])
    rw [← List.append_cons] at hrun
    rw [doubled, List.flatMap_cons]
    have hhead : ∀ u : Text, run (.literal value) u = .literal (value ++ [c]) →
        emitted (.literal value) u = [] →
        run (.literal value) (u ++ doubled s) = .literal (value ++ c :: s) ∧
          emitted (.literal value) (u ++ doubled s) = [] := by
      intro u hu hu'
      rw [run_append, emitted_append, hu, hu']
      exact ⟨hrun, hemit⟩
    split_ifs with hc
    · subst hc
      exact hhead _ rfl rfl
    · have hq : isSingleQuote c = false := by
        rw [← not_eq_true, isSingleQuote_iff]
        exact not_or.2 ⟨hc, by simp [h c List.mem_cons_self]⟩
      refine hhead _ ?_ rfl
      change next (.literal value) c = _
      rw [next, hq]
      rfl

/-- A text that starts with a single quote would continue a string put before it. -/
def StartsWithQuote (text : Text) : Prop := ∃ c ∈ text.head?, isSingleQuote c = true

instance (text : Text) : Decidable (StartsWithQuote text) :=
  match h : text.head? with
  | none => isFalse fun ⟨_, hc, _⟩ => by rw [h] at hc; exact nomatch hc
  | some c =>
    if hc : isSingleQuote c = true then isTrue ⟨c, h, hc⟩
    else isFalse fun ⟨d, hd, hq⟩ => hc (Option.some.inj (h.symm.trans hd) ▸ hq)

theorem lex_literalQuote (value : Text) {text : Text} (h : ¬ StartsWithQuote text) :
    lex (.literalQuote value) text = .literal value :: lex .code text := by
  cases text with
  | nil => rfl
  | cons c =>
    have hc : isSingleQuote c = false := by
      rw [← not_eq_true]
      exact fun hq => h ⟨c, rfl, hq⟩
    rw [lex, lex, emitted, emitted, emit, emit, run_cons, next, next, hc]
    rfl

theorem read_psQuote (h : Plain s) :
    run .code (psQuote s) = .literalQuote s ∧ emitted .code (psQuote s) = [] := by
  obtain ⟨hrun, hemit⟩ := read_doubled h []
  have hopen : run .code ('\'' :: doubled s) = .literal s ∧
      emitted .code ('\'' :: doubled s) = [] := ⟨hrun, hemit⟩
  rw [psQuote, ← List.cons_append, run_append, emitted_append, hopen.1, hopen.2]
  exact ⟨rfl, rfl⟩

theorem tokens_psQuote_iff (s : Text) {before after : Text}
    (hbefore : run .code before = .code) (hafter : ¬ StartsWithQuote after) :
    tokens (before ++ psQuote s ++ after) = tokens before ++ .literal s :: tokens after ↔
      Plain s := by
  constructor
  · intro h
    have hcost := congrArg cost h
    simp only [tokens, cost_append, cost_cons, cost_lex, Token.cost, Mode.pending,
      List.length_append, length_psQuote] at hcost
    have hlen := length_doubled s
    rw [plain_iff]
    omega
  · intro h
    rw [tokens, List.append_assoc, lex_append, hbefore, lex_append, (read_psQuote h).1,
      (read_psQuote h).2, List.nil_append, lex_literalQuote s hafter, tokens,
      lex_of_run_eq_code hbefore, tokens]

/-! ## Scripts -/

inductive Part where
  | code (text : Text)
  | value (s : Text)

def Part.text : Part → Text
  | .code text => text
  | .value s => psQuote s

def Part.reading : Part → List Token
  | .code text => tokens text
  | .value s => [.literal s]

def render (parts : List Part) : Text := parts.flatMap Part.text

def reading (parts : List Part) : List Token := parts.flatMap Part.reading

theorem render_cons (part : Part) (parts : List Part) :
    render (part :: parts) = part.text ++ render parts := List.flatMap_cons

theorem reading_cons (part : Part) (parts : List Part) :
    reading (part :: parts) = part.reading ++ reading parts := List.flatMap_cons

/-- A text is read from the given mode as it would be read as code: a string that ends here
is not continued by it. -/
def Leaves (text : Text) : Mode → Prop
  | .code => True
  | .literalQuote _ => text ≠ [] ∧ ¬ StartsWithQuote text
  | .doubleQuote => text ≠ [] ∧ ∀ c ∈ text.head?, isDoubleQuote c = false
  | .escaped | .literal _ | .double | .doubleEscaped => False

/-- Code is read as code, and values stand where code is expected. -/
def Leads : Mode → List Part → Mode → Prop
  | m, [], m' => m = m'
  | m, .code text :: parts, m' => Leaves text m ∧ Leads (run .code text) parts m'
  | m, .value s :: parts, m' => m = .code ∧ Leads (.literalQuote s) parts m'

variable {parts : List Part}

theorem Leads.append {m m' m'' : Mode} {parts' : List Part} (h : Leads m parts m')
    (h' : Leads m' parts' m'') : Leads m (parts ++ parts') m'' := by
  induction parts generalizing m with
  | nil =>
    obtain rfl : m = m' := h
    exact h'
  | cons part _ ih =>
    cases part with
    | code | value => exact ⟨h.1, ih h.2⟩

theorem lex_of_leaves {m : Mode} {text rest : Text} (h : Leaves text m) :
    lex m (text ++ rest) = flush m ++ lex .code (text ++ rest) := by
  cases m with
  | code => rfl
  | literalQuote value =>
    refine lex_literalQuote value fun ⟨c, hc, hq⟩ => h.2 ⟨c, ?_, hq⟩
    rwa [List.head?_append_of_ne_nil _ h.1] at hc
  | doubleQuote =>
    obtain ⟨c, _, rfl⟩ := List.exists_cons_of_ne_nil h.1
    have hc : isDoubleQuote c = false := h.2 c rfl
    rw [List.cons_append, lex, lex, emitted, emitted, emit, emit, run_cons, next, next, hc]
    rfl
  | escaped | literal | double | doubleEscaped => exact h.elim

/-- The number of characters by which the text of a piece is too short to be read as it is
meant. -/
def Part.shortfall : Part → ℕ
  | .code _ => 0
  | .value s => typographics s

theorem cost_reading (part : Part) : cost part.reading = part.text.length + part.shortfall := by
  cases part with
  | code text => exact (cost_lex .code text).trans (Nat.zero_add _)
  | value s =>
    have hlen := length_doubled s
    rw [Part.reading, Part.text, Part.shortfall, length_psQuote, cost_cons, cost_nil, Token.cost]
    omega

theorem shortfall_eq_zero (h : cost (reading parts) ≤ (render parts).length) :
    ∀ part ∈ parts, part.shortfall = 0 := by
  have hcost : ∀ l : List Part, (render l).length ≤ cost (reading l) := by
    intro l
    induction l with
    | nil => exact Nat.le_refl 0
    | cons =>
      rw [reading_cons, render_cons, cost_append, cost_reading, List.length_append]
      omega
  induction parts with
  | nil => exact fun part hpart => absurd hpart List.not_mem_nil
  | cons _ parts ih =>
    have hrest := hcost parts
    rw [reading_cons, render_cons, cost_append, cost_reading, List.length_append] at h
    intro other hother
    rcases List.mem_cons.1 hother with rfl | hother
    · omega
    · exact ih (by omega) other hother

theorem lex_render {m m' : Mode} (h : Leads m parts m') (hplain : ∀ s, .value s ∈ parts → Plain s) :
    lex m (render parts) = flush m ++ reading parts := by
  induction parts generalizing m with
  | nil => exact (List.append_nil _).symm
  | cons part _ ih =>
    have hrest := fun s hs => hplain s (List.mem_cons_of_mem part hs)
    cases part with
    | code =>
      rw [render_cons, reading_cons, Part.text, lex_of_leaves h.1, lex_append, ih h.2 hrest,
        Part.reading, tokens, lex, List.append_assoc]
    | value s =>
      obtain rfl : m = .code := h.1
      rw [render_cons, Part.text, lex_append, (read_psQuote (hplain s List.mem_cons_self)).1,
        (read_psQuote (hplain s List.mem_cons_self)).2, ih h.2 hrest]
      rfl

theorem tokens_render_iff {m : Mode} (h : Leads .code parts m) :
    tokens (render parts) = reading parts ↔ ∀ s, .value s ∈ parts → Plain s := by
  constructor
  · intro heq s hs
    refine plain_iff.2 (shortfall_eq_zero ?_ (.value s) hs)
    rw [← heq, tokens, cost_lex]
    exact Nat.le_of_eq (Nat.zero_add _)
  · exact lex_render h

end Abyssal.Gravekeeper
