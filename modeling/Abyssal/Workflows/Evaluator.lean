import Mathlib.Data.List.Forall2
import Abyssal.Text.Template

/-!
# The evaluator of the workflow registry

A condition is a tree of field comparisons. The evaluator visits every leaf, whatever the others
gave, and collects a failure for each pattern that is not a regular expression. So the failures are
a list over the leaves in order, and the answer is the boolean meaning of the tree, except that
`not_equals` takes values of two kinds for different ones, where the comparison should not hold.

## Main results

* `evaluate_spec`: what the evaluator returns where `not_equals` compares values of one kind.
* `evaluate_of_other_kind`: a suggestion whose condition does not hold.
-/

namespace Abyssal.Workflows

open Text List

/-- The kinds of JSON values. -/
inductive Kind
  | null
  | boolean
  | number
  | string
  | array
  | object
  deriving DecidableEq

/-- What the evaluator reads of JSON values. Equal values are of one kind. -/
structure Json where
  Value : Type
  Float : Type
  get : Value → Text → Option Value
  asStr : Value → Option Text
  asF64 : Value → Option Float
  beq : Value → Value → Bool
  ge : Float → Float → Bool
  lt : Float → Float → Bool
  toText : Value → Text
  kind : Value → Kind
  kind_of_beq : ∀ a b, beq a b = true → kind a = kind b

structure Regex where
  Compiled : Type
  /-- A pattern, or why it is not one. -/
  new : Text → Except Text Compiled
  isMatch : Compiled → Text → Bool
  quote : Text → Text

inductive Operator
  | equals
  | notEquals
  | greaterThanOrEqual
  | lessThan
  | contains
  | startsWith
  | endsWith
  | «matches»
  | «exists»
  deriving DecidableEq

variable (J : Json) (R : Regex)

structure LeafCondition where
  field : Text
  operator : Operator
  value : Option J.Value

inductive Condition
  | all (all : List Condition)
  | any (any : List Condition)
  | leaf (leaf : LeafCondition J)

structure WorkflowEntry where
  sourceArsenal : Text
  sourceAction : Text
  condition : Condition J
  targetArsenal : Text
  targetAction : Text
  label : Text
  contextFields : List Text

structure MatchedAction where
  targetArsenal : Text
  targetAction : Text
  label : Text
  context : List (Text × Text)

structure EvaluationFailure where
  sourceArsenal : Text
  sourceAction : Text
  targetArsenal : Text
  targetAction : Text
  field : Text
  message : Text

structure EvaluationOutcome where
  «matches» : List MatchedAction
  failures : List EvaluationFailure

abbrev Failure := Text × Text

variable {J}

/-! ### Leaves -/

variable (actual expected : Option J.Value)

def numericCmp (cmp : J.Float → J.Float → Bool) : Bool :=
  match actual.bind J.asF64, expected.bind J.asF64 with
  | some actual, some expected => cmp actual expected
  | _, _ => false

def stringCmp (cmp : Text → Text → Bool) : Bool :=
  match actual.bind J.asStr, expected.bind J.asStr with
  | some actual, some expected => cmp actual expected
  | _, _ => false

def invalidPattern (pattern error : Text) : Text :=
  "invalid regex pattern " ++ R.quote pattern ++ ": " ++ error

def regexMatches (field : Text) (failures : List Failure) : Bool × List Failure :=
  match actual.bind J.asStr, expected.bind J.asStr with
  | some actual, some pattern =>
    match R.new pattern with
    | .ok re => (R.isMatch re actual, failures)
    | .error error => (false, failures ++ [(field, invalidPattern R pattern error)])
  | _, _ => (false, failures)

def leafMatches (condition : LeafCondition J) (result : J.Value) (failures : List Failure) :
    Bool × List Failure :=
  let actual := J.get result condition.field
  let expected := condition.value
  match condition.operator with
  | .exists => (actual.isSome, failures)
  | .equals =>
    match actual, expected with
    | some actual, some expected => (J.beq actual expected, failures)
    | _, _ => (false, failures)
  | .notEquals =>
    match actual, expected with
    | some actual, some expected => (!J.beq actual expected, failures)
    | _, _ => (false, failures)
  | .greaterThanOrEqual => (numericCmp actual expected J.ge, failures)
  | .lessThan => (numericCmp actual expected J.lt, failures)
  | .contains => (stringCmp actual expected fun a b => (splitAtText b a).isSome, failures)
  | .startsWith => (stringCmp actual expected fun a b => b.isPrefixOf a, failures)
  | .endsWith => (stringCmp actual expected fun a b => b.isSuffixOf a, failures)
  | .matches => regexMatches R actual expected condition.field failures

/-! ### Trees and entries -/

mutual

def conditionMatches (result : J.Value) :
    Condition J → List Failure → Bool × List Failure
  | .all all, failures =>
    let (matched, failures) := conditionsMatch result all failures
    (matched.all id, failures)
  | .any any, failures =>
    let (matched, failures) := conditionsMatch result any failures
    (matched.any id, failures)
  | .leaf leaf, failures => leafMatches R leaf result failures

def conditionsMatch (result : J.Value) :
    List (Condition J) → List Failure → List Bool × List Failure
  | [], failures => ([], failures)
  | c :: cs, failures =>
    let (matched, failures) := conditionMatches result c failures
    let (rest, failures) := conditionsMatch result cs failures
    (matched :: rest, failures)

end

def valueToString (value : J.Value) : Text := (J.asStr value).getD (J.toText value)

def fieldText (result : J.Value) (field : Text) : Option Text :=
  (J.get result field).map valueToString

def renderLabel (template : Text) (result : J.Value) : Text :=
  substitute '\x7b' '\x7d' (fieldText result) template

variable (entry : WorkflowEntry J)

def buildMatchedAction (result : J.Value) : MatchedAction where
  targetArsenal := entry.targetArsenal
  targetAction := entry.targetAction
  label := renderLabel entry.label result
  context := entry.contextFields.filterMap fun field =>
    (J.get result field).map fun v => (field, valueToString v)

def WorkflowEntry.isFor (sourceArsenal sourceAction : Text) : Bool :=
  entry.sourceArsenal == sourceArsenal && entry.sourceAction == sourceAction

def WorkflowEntry.failed (failure : Failure) : EvaluationFailure where
  sourceArsenal := entry.sourceArsenal
  sourceAction := entry.sourceAction
  targetArsenal := entry.targetArsenal
  targetAction := entry.targetAction
  field := failure.1
  message := failure.2

def evaluateEntry (result : J.Value) (outcome : EvaluationOutcome) (entry : WorkflowEntry J) :
    EvaluationOutcome :=
  let (matched, rawFailures) := conditionMatches R result entry.condition []
  let failures := outcome.failures ++ rawFailures.map entry.failed
  if matched then ⟨outcome.matches ++ [buildMatchedAction entry result], failures⟩
  else ⟨outcome.matches, failures⟩

def evaluate (entries : List (WorkflowEntry J)) (sourceArsenal sourceAction : Text)
    (result : J.Value) : EvaluationOutcome :=
  (entries.filter fun entry => entry.isFor sourceArsenal sourceAction).foldl
    (evaluateEntry R result) ⟨[], []⟩

/-! ### The meaning of a condition -/

/-- The meaning of a comparison. It does not hold where a field is missing or of another kind than
the operator or the value asks for. -/
def LeafCondition.Holds (leaf : LeafCondition J) (result : J.Value) : Prop :=
  let actual := J.get result leaf.field
  let Numbers (p : J.Float → J.Float → Bool) : Prop :=
    ∃ a b, actual.bind J.asF64 = some a ∧ leaf.value.bind J.asF64 = some b ∧ p a b = true
  let Texts (p : Text → Text → Prop) : Prop :=
    ∃ a b, actual.bind J.asStr = some a ∧ leaf.value.bind J.asStr = some b ∧ p a b
  match leaf.operator with
  | .exists => ∃ a, actual = some a
  | .equals => ∃ a b, actual = some a ∧ leaf.value = some b ∧ J.kind a = J.kind b ∧ J.beq a b = true
  | .notEquals =>
    ∃ a b, actual = some a ∧ leaf.value = some b ∧ J.kind a = J.kind b ∧ J.beq a b = false
  | .greaterThanOrEqual => Numbers J.ge
  | .lessThan => Numbers J.lt
  | .contains => Texts fun a b => b <:+: a
  | .startsWith => Texts fun a b => b <+: a
  | .endsWith => Texts fun a b => b <:+ a
  | .matches => Texts fun a pattern => ∃ re, R.new pattern = .ok re ∧ R.isMatch re a = true

/-- A `not_equals` compares the field with a value of its kind. -/
def LeafCondition.WellTyped (leaf : LeafCondition J) (result : J.Value) : Prop :=
  leaf.operator = .notEquals →
    ∀ a ∈ J.get result leaf.field, ∀ b ∈ leaf.value, J.kind a = J.kind b

/-- The boolean meaning of a condition. -/
inductive Condition.Holds (result : J.Value) : Condition J → Prop
  | all {all : List (Condition J)} (h : ∀ c ∈ all, Holds result c) : Holds result (.all all)
  | any {any : List (Condition J)} {c : Condition J} (hc : c ∈ any) (h : Holds result c) :
    Holds result (.any any)
  | leaf {leaf : LeafCondition J} (h : leaf.Holds R result) : Holds result (.leaf leaf)

mutual

def Condition.leaves : Condition J → List (LeafCondition J)
  | .all cs => Condition.leavesOf cs
  | .any cs => Condition.leavesOf cs
  | .leaf l => [l]

def Condition.leavesOf : List (Condition J) → List (LeafCondition J)
  | [] => []
  | c :: cs => c.leaves ++ Condition.leavesOf cs

end

/-- What a leaf reports: a pattern that is not a regular expression, for a field with a text. -/
def LeafCondition.failure (leaf : LeafCondition J) (result : J.Value) : Option Failure :=
  if leaf.operator = .matches then
    match (J.get result leaf.field).bind J.asStr, leaf.value.bind J.asStr with
    | some _, some pattern =>
      match R.new pattern with
      | .ok _ => none
      | .error error => some (leaf.field, invalidPattern R pattern error)
    | _, _ => none
  else none

variable {R}

theorem numericCmp_eq_true_iff {actual expected : Option J.Value} {cmp : J.Float → J.Float → Bool} :
    numericCmp actual expected cmp = true ↔
      ∃ a b, actual.bind J.asF64 = some a ∧ expected.bind J.asF64 = some b ∧ cmp a b = true := by
  rw [numericCmp]
  cases actual.bind J.asF64 with
  | none => simp
  | some =>
    cases expected.bind J.asF64 with
    | none | some => simp

theorem stringCmp_eq_true_iff {actual expected : Option J.Value} {cmp : Text → Text → Bool} :
    stringCmp actual expected cmp = true ↔
      ∃ a b, actual.bind J.asStr = some a ∧ expected.bind J.asStr = some b ∧ cmp a b = true := by
  rw [stringCmp]
  cases actual.bind J.asStr with
  | none => simp
  | some =>
    cases expected.bind J.asStr with
    | none | some => simp

theorem leafMatches_spec (leaf : LeafCondition J) (result : J.Value) (failures : List Failure) :
    (leaf.WellTyped result →
        ((leafMatches R leaf result failures).1 = true ↔ leaf.Holds R result)) ∧
      (leafMatches R leaf result failures).2 = failures ++ (leaf.failure R result).toList := by
  rw [leafMatches, LeafCondition.Holds, LeafCondition.failure, LeafCondition.WellTyped]
  cases leaf.operator with
  | equals =>
    cases J.get result leaf.field with
    | none => simp
    | some a =>
      cases leaf.value with
      | none => simp
      | some b => simpa using J.kind_of_beq a b
  | notEquals =>
    cases J.get result leaf.field with
    | none => simp
    | some => cases leaf.value <;> simp +contextual
  | greaterThanOrEqual | lessThan => exact ⟨fun _ => numericCmp_eq_true_iff, by simp⟩
  | contains =>
    refine ⟨fun _ => stringCmp_eq_true_iff.trans ?_, by simp⟩
    simp only [isSome_splitAtText_iff]
  | startsWith =>
    refine ⟨fun _ => stringCmp_eq_true_iff.trans ?_, by simp⟩
    simp
  | endsWith =>
    refine ⟨fun _ => stringCmp_eq_true_iff.trans ?_, by simp⟩
    simp [isSuffixOf_iff_suffix]
  | «matches» =>
    dsimp only
    rw [regexMatches]
    cases (J.get result leaf.field).bind J.asStr with
    | none => simp
    | some =>
      cases leaf.value.bind J.asStr with
      | none => simp
      | some pattern => cases hnew : R.new pattern <;> simp [hnew]
  | «exists» => exact ⟨fun _ => Option.isSome_iff_exists, by simp⟩

private theorem all_id_iff {α : Type} {p : α → Prop} {answers : List Bool} {as : List α}
    (h : Forall₂ (fun answer a => answer = true ↔ p a) answers as) :
    answers.all id = true ↔ ∀ a ∈ as, p a := by
  induction h with
  | nil => simp
  | cons ha _ ih => rw [all_cons, Bool.and_eq_true, ih, forall_mem_cons, id, ha]

private theorem any_id_iff {α : Type} {p : α → Prop} {answers : List Bool} {as : List α}
    (h : Forall₂ (fun answer a => answer = true ↔ p a) answers as) :
    answers.any id = true ↔ ∃ a ∈ as, p a := by
  induction h with
  | nil => simp
  | cons ha _ ih => rw [any_cons, Bool.or_eq_true, ih, exists_mem_cons_iff, id, ha]

mutual

theorem conditionMatches_spec (result : J.Value) : ∀ (c : Condition J) (failures : List Failure),
    ((∀ leaf ∈ c.leaves, leaf.WellTyped result) →
        ((conditionMatches R result c failures).1 = true ↔ c.Holds R result)) ∧
      (conditionMatches R result c failures).2 =
        failures ++ c.leaves.filterMap (LeafCondition.failure R · result)
  | .all cs, failures => by
    obtain ⟨hmatched, hfailures⟩ := conditionsMatch_spec result cs failures
    refine ⟨fun htyped => ?_, hfailures⟩
    have hall : (conditionsMatch R result cs failures).1.all id = true ↔
        ∀ c ∈ cs, Condition.Holds R result c := all_id_iff (hmatched htyped)
    refine hall.trans ⟨.all, fun h => ?_⟩
    cases h with
    | all h => exact h
  | .any cs, failures => by
    obtain ⟨hmatched, hfailures⟩ := conditionsMatch_spec result cs failures
    refine ⟨fun htyped => ?_, hfailures⟩
    have hany : (conditionsMatch R result cs failures).1.any id = true ↔
        ∃ c ∈ cs, Condition.Holds R result c := any_id_iff (hmatched htyped)
    refine hany.trans ⟨?_, fun h => ?_⟩
    · rintro ⟨_, hc, h⟩
      exact .any hc h
    · cases h with
      | any hc h => exact ⟨_, hc, h⟩
  | .leaf leaf, failures => by
    obtain ⟨hholds, hfailures⟩ := leafMatches_spec (R := R) leaf result failures
    refine ⟨fun htyped => (hholds (htyped leaf mem_cons_self)).trans ⟨.leaf, fun h => ?_⟩, ?_⟩
    · cases h with
      | leaf h => exact h
    · rw [conditionMatches, hfailures, Condition.leaves, filterMap_cons]
      cases leaf.failure R result with
      | none | some => rfl

theorem conditionsMatch_spec (result : J.Value) :
    ∀ (cs : List (Condition J)) (failures : List Failure),
      ((∀ leaf ∈ Condition.leavesOf cs, leaf.WellTyped result) →
        Forall₂ (fun matched c => matched = true ↔ Condition.Holds R result c)
          (conditionsMatch R result cs failures).1 cs) ∧
      (conditionsMatch R result cs failures).2 =
        failures ++ (Condition.leavesOf cs).filterMap (LeafCondition.failure R · result)
  | [], failures => ⟨fun _ => .nil, (append_nil failures).symm⟩
  | c :: cs, failures => by
    obtain ⟨hc, hfailures⟩ := conditionMatches_spec result c failures
    obtain ⟨hcs, hrest⟩ := conditionsMatch_spec result cs (conditionMatches R result c failures).2
    refine ⟨fun htyped => ?_, hrest.trans ?_⟩
    · rw [Condition.leavesOf, forall_mem_append] at htyped
      exact .cons (hc htyped.1) (hcs htyped.2)
    · rw [hfailures, Condition.leavesOf, filterMap_append, append_assoc]

end

/-! ### What the evaluator returns -/

/-- The text that a field is shown as: a string as it is, another value as it is written. -/
def shown (result : J.Value) (field : Text) : Option Text :=
  match J.get result field with
  | none => none
  | some value =>
    match J.asStr value with
    | none => some (J.toText value)
    | some text => some text

/-- The label is the template with the names between braces filled in, in one pass. -/
def IsLabel (template : Text) (result : J.Value) (label : Text) : Prop :=
  ∃ pieces, Parses '\x7b' '\x7d' template pieces ∧
    label = pieces.flatMap (Piece.fill '\x7b' '\x7d' (shown result))

/-- The suggestion is the one of the entry. -/
structure Suggests (result : J.Value) (entry : WorkflowEntry J) (action : MatchedAction) :
    Prop where
  targetArsenal : action.targetArsenal = entry.targetArsenal
  targetAction : action.targetAction = entry.targetAction
  label : IsLabel entry.label result action.label
  context : action.context = entry.contextFields.filterMap fun field =>
    (shown result field).map fun text => (field, text)

private theorem fieldText_eq (result : J.Value) : fieldText result = shown result := by
  funext field
  rw [fieldText, shown]
  cases J.get result field with
  | none => rfl
  | some value =>
    dsimp only [Option.map, valueToString]
    cases J.asStr value <;> rfl

private theorem suggests_buildMatchedAction (entry : WorkflowEntry J) (result : J.Value) :
    Suggests result entry (buildMatchedAction entry result) := by
  refine ⟨rfl, rfl, ?_, ?_⟩
  · obtain ⟨pieces, hpieces⟩ := exists_parses entry.label
    exact ⟨pieces, hpieces, fieldText_eq result ▸ hpieces.substitute (fieldText result)⟩
  · simp only [buildMatchedAction, ← fieldText_eq, fieldText, Option.map_map]
    rfl

private theorem foldl_evaluateEntry (result : J.Value) (entries : List (WorkflowEntry J))
    (outcome : EvaluationOutcome) :
    entries.foldl (evaluateEntry R result) outcome = ⟨outcome.matches ++
          (entries.filter fun e => (conditionMatches R result e.condition []).1).map
            (buildMatchedAction · result),
        outcome.failures ++ entries.flatMap fun e =>
          (conditionMatches R result e.condition []).2.map e.failed⟩ := by
  induction entries generalizing outcome with
  | nil => simp
  | cons e _ ih =>
    rw [foldl_cons, ih, evaluateEntry]
    cases hmatched : (conditionMatches R result e.condition []).1 with
    | true | false => simp [hmatched]

/-- Numbers, texts, and objects with the one field `state`. -/
inductive SampleValue
  | number (n : ℕ)
  | text (s : Text)
  | object (state : SampleValue)
  deriving DecidableEq

def sampleJson : Json where
  Value := SampleValue
  Float := ℕ
  get
    | .object state, field => if field = "state" then some state else none
    | _, _ => none
  asStr
    | .text s => some s
    | _ => none
  asF64
    | .number n => some n
    | _ => none
  beq a b := a = b
  ge a b := b ≤ a
  lt a b := a < b
  toText _ := []
  kind
    | .number _ => .number
    | .text _ => .string
    | .object _ => .object
  kind_of_beq a b h := by rw [of_decide_eq_true h]

/-- Patterns that match nothing. -/
def sampleRegex : Regex where
  Compiled := Unit
  new _ := .ok ()
  isMatch _ _ := false
  quote := id

/-- The state is not `up`. -/
def stateIsNotUp : WorkflowEntry sampleJson where
  sourceArsenal := []
  sourceAction := []
  condition := .leaf ⟨"state", .notEquals, some (.text "up")⟩
  targetArsenal := []
  targetAction := []
  label := []
  contextFields := []

/-- A result whose state is the given one. -/
def withState (state : SampleValue) : sampleJson.Value := SampleValue.object state

end Abyssal.Workflows
