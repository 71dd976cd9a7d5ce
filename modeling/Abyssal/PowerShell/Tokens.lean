import Abyssal.Text.Basic

/-!
# Reading a PowerShell script

A verbatim string is opened by a single quote, and everything up to the closing quote is its value,
except that two quotes in a row stand for one. PowerShell counts five characters as single quotes,
the apostrophe and U+2018 to U+201B. Double-quoted strings are code, and a quote inside one, or
after the escape character, opens nothing. `cost` gives the number of characters a token was read
from.
-/

namespace Abyssal.PowerShell

open List

def isSingleQuote (c : Char) : Bool :=
  c = '\'' || (0x2018 ≤ c.toNat && c.toNat ≤ 0x201B)

def isDoubleQuote (c : Char) : Bool :=
  c = '"' || (0x201C ≤ c.toNat && c.toNat ≤ 0x201E)

def escape : Char := Char.ofNat 0x60

inductive Token where
  | code (c : Char)
  | literal (value : Text)
  | unterminated (value : Text)
  deriving DecidableEq

/-- Where the reader is. In `literalQuote` and `doubleQuote` a quote was read, which closes the
string unless another follows. -/
inductive Mode where
  | code
  | escaped
  | literal (value : Text)
  | literalQuote (value : Text)
  | double
  | doubleEscaped
  | doubleQuote
  deriving DecidableEq

def nextCode (c : Char) : Mode :=
  if isSingleQuote c then .literal []
  else if isDoubleQuote c then .double
  else if c = escape then .escaped
  else .code

def emitCode (c : Char) : List Token := if isSingleQuote c then [] else [.code c]

def next : Mode → Char → Mode
  | .code, c => nextCode c
  | .escaped, _ => .code
  | .literal value, c => if isSingleQuote c then .literalQuote value else .literal (value ++ [c])
  | .literalQuote value, c => if isSingleQuote c then .literal (value ++ [c]) else nextCode c
  | .double, c =>
    if isDoubleQuote c then .doubleQuote else if c = escape then .doubleEscaped else .double
  | .doubleEscaped, _ => .double
  | .doubleQuote, c => if isDoubleQuote c then .double else nextCode c

def emit : Mode → Char → List Token
  | .code, c => emitCode c
  | .escaped, c => [.code c]
  | .literal _, _ => []
  | .literalQuote value, c => if isSingleQuote c then [] else .literal value :: emitCode c
  | .double, c => [.code c]
  | .doubleEscaped, c => [.code c]
  | .doubleQuote, c => if isDoubleQuote c then [.code c] else emitCode c

def flush : Mode → List Token
  | .literal value => [.unterminated value]
  | .literalQuote value => [.literal value]
  | .code | .escaped | .double | .doubleEscaped | .doubleQuote => []

def run (m : Mode) (text : Text) : Mode := text.foldl next m

def emitted : Mode → Text → List Token
  | _, [] => []
  | m, c :: text => emit m c ++ emitted (next m c) text

def lex (m : Mode) (text : Text) : List Token := emitted m text ++ flush (run m text)

def tokens (script : Text) : List Token := lex .code script

variable (m : Mode)

theorem run_cons (c : Char) (text : Text) : run m (c :: text) = run (next m c) text := rfl

variable (text : Text)

theorem run_append (text' : Text) : run m (text ++ text') = run (run m text) text' :=
  foldl_append

theorem emitted_append (text' : Text) :
    emitted m (text ++ text') = emitted m text ++ emitted (run m text) text' := by
  induction text generalizing m with
  | nil => rfl
  | cons _ _ ih => rw [cons_append, emitted, ih, emitted, append_assoc, run_cons]

theorem lex_append (text' : Text) :
    lex m (text ++ text') = emitted m text ++ lex (run m text) text' := by
  rw [lex, emitted_append, run_append, append_assoc, lex]

theorem lex_of_run_eq_code {m : Mode} {text : Text} (h : run m text = .code) :
    lex m text = emitted m text := by
  rw [lex, h, flush, append_nil]

/-! ## Every character is accounted for -/

def quotes (text : Text) : ℕ := text.countP isSingleQuote

/-- The number of characters that a token is read from: a quote in the value of a string is
read from two. -/
def Token.cost : Token → ℕ
  | .code _ => 1
  | .literal value => value.length + quotes value + 2
  | .unterminated value => value.length + quotes value + 1

/-- The number of characters that tokens are read from. -/
def cost (ts : List Token) : ℕ := ts.foldr (fun t n => t.cost + n) 0

@[simp] theorem cost_nil : cost [] = 0 := rfl

@[simp] theorem cost_cons (t : Token) (ts : List Token) : cost (t :: ts) = t.cost + cost ts := rfl

@[simp] theorem cost_append (ts ts' : List Token) : cost (ts ++ ts') = cost ts + cost ts' := by
  induction ts with
  | nil => exact (Nat.zero_add _).symm
  | cons _ _ ih => rw [cons_append, cost_cons, cost_cons, ih, Nat.add_assoc]

/-- The number of characters read for the token in progress. -/
def Mode.pending : Mode → ℕ
  | .literal value => value.length + quotes value + 1
  | .literalQuote value => value.length + quotes value + 2
  | .code | .escaped | .double | .doubleEscaped | .doubleQuote => 0

theorem pending_literal (value : Text) :
    (Mode.literal value).pending = value.length + quotes value + 1 := rfl

theorem pending_literalQuote (value : Text) :
    (Mode.literalQuote value).pending = value.length + quotes value + 2 := rfl

theorem cost_flush : cost (flush m) = m.pending := by
  cases m <;> rfl

theorem cost_emitCode (c : Char) : cost (emitCode c) + (nextCode c).pending = 1 := by
  rw [emitCode, nextCode]
  split_ifs <;> rfl

theorem quotes_concat (value : Text) (c : Char) :
    quotes (value ++ [c]) = quotes value + if isSingleQuote c then 1 else 0 := by
  rw [quotes, countP_append, countP_singleton, quotes]

theorem cost_emit (c : Char) : cost (emit m c) + (next m c).pending = m.pending + 1 := by
  cases m with
  | code => exact (cost_emitCode c).trans (Nat.zero_add 1).symm
  | escaped | doubleEscaped => rfl
  | literal =>
    rw [emit, next]
    split_ifs with hc
    · rw [pending_literalQuote, pending_literal, cost_nil]
      omega
    · rw [pending_literal, pending_literal, cost_nil, quotes_concat, if_neg hc,
        length_append, length_singleton]
      omega
  | literalQuote =>
    rw [emit, next]
    split_ifs with hc
    · rw [pending_literal, pending_literalQuote, cost_nil, quotes_concat, if_pos hc,
        length_append, length_singleton]
      omega
    · have hcode := cost_emitCode c
      rw [pending_literalQuote, cost_cons, Token.cost]
      omega
  | double =>
    rw [next]
    split_ifs <;> rfl
  | doubleQuote =>
    rw [emit, next]
    split_ifs
    · rfl
    · exact (cost_emitCode c).trans (Nat.zero_add 1).symm

theorem cost_lex : cost (lex m text) = m.pending + text.length := by
  induction text generalizing m with
  | nil => exact cost_flush m
  | cons c text ih =>
    have hstep := cost_emit m c
    have hrest := ih (next m c)
    rw [← singleton_append, lex_append, cost_append]
    change cost (emit m c ++ []) + cost (lex (next m c) text) = _
    rw [append_nil, length_append, length_singleton]
    omega

end Abyssal.PowerShell
