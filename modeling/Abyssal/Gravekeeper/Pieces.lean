import Abyssal.Gravekeeper.Scripts

/-!
# The pieces of the scripts

The fixed texts start and end outside of strings and leave room for the values where code is
expected, so the reader gets through a piece whatever the values are. Most values cannot do harm,
since the validators let no typographic quote through.
-/

namespace Abyssal.Gravekeeper

open PowerShell List

/-! ## Pieces that fit together -/

def outside : Mode → Bool
  | .code | .literalQuote _ | .doubleQuote => true
  | .escaped | .literal _ | .double | .doubleEscaped => false

/-- The pieces can be read from code on, and end outside of strings. -/
def Fits (parts : List Part) : Prop := ∃ m, Leads .code parts m ∧ outside m = true

variable {l : Text} {c : Char}

theorem leaves_literalQuote {value : Text}
    (hc : isSingleQuote c = false) : Leaves (c :: l) (.literalQuote value) := by
  refine ⟨cons_ne_nil c l, ?_⟩
  rintro ⟨_, hd, hq⟩
  rw [← Option.some.inj hd, hc] at hq
  cases hq

variable {parts : List Part} {m : Mode}

open String

theorem Leads.lit (h : run .code l = .code) (hparts : Leads .code parts m) :
    Leads .code (lit (ofList l) :: parts) m := by
  refine ⟨trivial, ?_⟩
  rwa [toList_ofList, h]

variable {s : Text}

theorem Leads.value (hc : isSingleQuote c = false) (h : run .code (c :: l) = .code)
    (hparts : Leads .code parts m) :
    Leads .code (.value s :: Gravekeeper.lit (ofList (c :: l)) :: parts) m := by
  refine ⟨rfl, ?_⟩
  rw [Leads, toList_ofList, h]
  exact ⟨leaves_literalQuote hc, hparts⟩

theorem Leads.flag {allow : Bool} (hparts : Leads .code parts m) :
    Leads .code (flag allow :: parts) m := by
  cases allow with
  | false | true => exact .lit (by decide) hparts

variable {parts' : List Part}

theorem Leads.join (h : Leads .code parts .code)
    (h' : Leads .code parts' .code) : Leads .code (parts ++ parts') .code := h.append h'

theorem Fits.last {l : Text} (h : outside (run .code l)) : Fits [lit (ofList l)] := by
  refine ⟨run .code l, ⟨trivial, ?_⟩, h⟩
  rw [toList_ofList]
  exact rfl

theorem Fits.value_last : Fits [.value s] := ⟨.literalQuote s, ⟨rfl, rfl⟩, rfl⟩

theorem Fits.append (h : Leads .code parts .code) (h' : Fits parts') : Fits (parts ++ parts') := by
  obtain ⟨m, hm, hout⟩ := h'
  exact ⟨m, h.append hm, hout⟩

theorem Fits.value
    (hc : isSingleQuote c = false) (h : run .code (c :: l) = .code) (hparts : Fits parts) :
    Fits (.value s :: lit (ofList (c :: l)) :: parts) := by
  obtain ⟨m, hm, hout⟩ := hparts
  exact ⟨m, .value hc h hm, hout⟩

theorem Fits.lit (h : run .code l = .code)
    (hparts : Fits parts) : Fits (lit (ofList l) :: parts) := by
  obtain ⟨m, hm, hout⟩ := hparts
  exact ⟨m, .lit h hm, hout⟩

theorem Fits.leads_psChecked {body : List Part} (h : Fits body) :
    Leads .code (psChecked body) .code := by
  obtain ⟨m, hm, hout⟩ := h
  refine .lit (by decide) (hm.append ?_)
  have hend : ∀ (c : Char) (l : Text), isSingleQuote c = false → isDoubleQuote c = false →
      run .code (c :: l) = .code →
      Leads m [Gravekeeper.lit (ofList (c :: l))] .code := by
    intro c l hsingle hdouble hrun
    rw [Leads, toList_ofList, hrun]
    refine ⟨?_, rfl⟩
    cases m with
    | code => trivial
    | literalQuote => exact leaves_literalQuote hsingle
    | doubleQuote => exact ⟨cons_ne_nil c l, fun d hd => Option.some.inj hd ▸ hdouble⟩
    | escaped | literal | double | doubleEscaped => cases hout
  exact hend _ _ (by decide) (by decide) (by decide)

/-! ## The pieces of the scripts fit

The fixed texts are walked piece by piece; each is seen to end outside of strings by reading
it. -/

theorem leads_credPreamble (server upn : Text) : Leads .code (credPreamble server upn) .code := by
  repeat' first | apply Leads.lit | apply Leads.value | decide | rfl

variable (allow : Bool)

theorem leads_objectGuard : Leads .code (objectGuard allow) .code := by
  repeat' first | apply Leads.lit | apply Leads.flag | decide | rfl

theorem leads_groupGuard : Leads .code (groupGuard allow) .code := by
  repeat' first | apply Leads.lit | apply Leads.flag | decide | rfl

theorem leads_credAndGuard (server upn dn : Text) (allow : Bool) :
    Leads .code (credAndGuard server upn dn allow) .code := by
  repeat' first | apply Leads.lit | apply Leads.value | apply Leads.flag | decide | rfl

theorem leads_action (change : GroupMemberChange) : Leads .code change.action .code := by
  cases change with
  | add | remove => repeat' first | apply Leads.lit | decide | rfl

theorem leads_arrayOf (items : List Text) : Leads .code (arrayOf items) .code := by
  cases items with
  | nil => exact .lit (by decide) rfl
  | cons first rest =>
    refine .lit (by decide) ⟨rfl, ?_⟩
    -- after each value the reader waits for what follows its closing quote
    induction rest generalizing first with
    | nil =>
      have hclose : run .code ")" = .code := by decide
      exact ⟨leaves_literalQuote (by decide), hclose⟩
    | cons item _ ih =>
      have hcomma : run .code "," = .code := by decide
      exact ⟨leaves_literalQuote (by decide), hcomma, ih item⟩

variable {toLowercase : Lowercase} {attributes : List (Text × Text)}

theorem leads_otherStmts (h : otherStmts toLowercase attributes = .ok parts) :
    Leads .code parts .code := by
  induction attributes generalizing parts with
  | nil =>
    cases h
    exact rfl
  | cons kv _ ih =>
    obtain ⟨_, _⟩ := kv
    rw [otherStmts] at h
    split_ifs at h with hreserved hwritable
    · exact ih h
    · obtain ⟨_, hrest, hparts⟩ := bind_eq_ok.1 h
      cases hparts
      exact .lit (by decide) (.value (by decide) (by decide)
        (.value (by decide) (by decide) (ih hrest)))

private theorem leads_ite {p : Prop} [Decidable p] (h : Leads .code parts .code) :
    Leads .code (if p then [] else parts) .code := by
  split_ifs
  · exact rfl
  · exact h

theorem leads_groupParams (name scope category targetOu description : Text) :
    Leads .code (groupParams name scope category targetOu description) .code := by
  refine .join (.join ?_ (leads_ite ?_)) (leads_ite ?_)
  · repeat' first | apply Leads.lit | apply Leads.value | decide | rfl
  · exact .lit (by decide) (.value (by decide) (by decide) rfl)
  · exact .lit (by decide) (.value (by decide) (by decide) rfl)

theorem fits_createUserBody (args : CreateUserArgs) (samBase : Text) {other : List Part}
    (hother : Leads .code other .code) : Fits (createUserBody args samBase other) := by
  refine .append (.join (.join (.join ?_ hother) ?_) (leads_arrayOf _)) ?_
  · repeat' first | apply Leads.lit | apply Leads.value | apply Leads.flag | decide | rfl
  · repeat' first | apply Leads.lit | decide | rfl
  · repeat' first | apply Fits.last | apply Fits.lit | decide

/-! ## The values of the scripts -/

def valuesOf (parts : List Part) : List Text :=
  parts.filterMap fun
    | .code _ => none
    | .value s => some s

@[simp] theorem valuesOf_nil : valuesOf [] = [] := rfl

@[simp] theorem valuesOf_code (text : Text) (parts : List Part) :
    valuesOf (.code text :: parts) = valuesOf parts := rfl

@[simp] theorem valuesOf_value (s : Text) (parts : List Part) :
    valuesOf (.value s :: parts) = s :: valuesOf parts := rfl

@[simp] theorem valuesOf_flag (parts : List Part) :
    valuesOf (flag allow :: parts) = valuesOf parts := by
  cases allow <;> rfl

@[simp] theorem valuesOf_append (parts parts' : List Part) :
    valuesOf (parts ++ parts') = valuesOf parts ++ valuesOf parts' := filterMap_append

theorem mem_valuesOf : s ∈ valuesOf parts ↔ .value s ∈ parts := by
  induction parts with
  | nil => exact iff_of_false not_mem_nil not_mem_nil
  | cons part _ ih =>
    cases part with
    | code => rw [valuesOf_code, ih, mem_cons, or_iff_right nofun]
    | value => rw [valuesOf_value, mem_cons, mem_cons, ih, Part.value.injEq]

@[simp] theorem valuesOf_psChecked (body : List Part) :
    valuesOf (psChecked body) = valuesOf body := by
  simp [psChecked]

@[simp] theorem valuesOf_credPreamble (server upn : Text) :
    valuesOf (credPreamble server upn) = [upn, server] := rfl

@[simp] theorem valuesOf_objectGuard : valuesOf (objectGuard allow) = [] := by
  simp [objectGuard]

@[simp] theorem valuesOf_groupGuard : valuesOf (groupGuard allow) = [] := by
  simp [groupGuard]

@[simp] theorem valuesOf_credAndGuard (server upn dn : Text) (allow : Bool) :
    valuesOf (credAndGuard server upn dn allow) = [upn, server, dn] := by
  simp [credAndGuard]

@[simp] theorem valuesOf_action (change : GroupMemberChange) : valuesOf change.action = [] := by
  cases change <;> rfl

@[simp] theorem valuesOf_arrayOf (items : List Text) : valuesOf (arrayOf items) = items := by
  have hrest : ∀ rest : List Text,
      valuesOf (rest.flatMap fun item => [lit ",", .value item]) = rest := by
    intro rest
    induction rest with
    | nil => rfl
    | cons _ _ ih => simp [ih]
  cases items with
  | nil => rfl
  | cons => simp [arrayOf, hrest]

def AllPlain (texts : List Text) : Prop := ∀ s ∈ texts, Plain s

@[simp] theorem allPlain_nil : AllPlain [] := nofun

@[simp] theorem allPlain_cons (s : Text) (texts : List Text) :
    AllPlain (s :: texts) ↔ Plain s ∧ AllPlain texts := forall_mem_cons

@[simp] theorem allPlain_append (texts texts' : List Text) :
    AllPlain (texts ++ texts') ↔ AllPlain texts ∧ AllPlain texts' := forall_mem_append

def writtenValues (toLowercase : Lowercase) (attributes : List (Text × Text)) : List Text :=
  (attributes.filter fun kv => !isReserved toLowercase kv.1).map Prod.snd

theorem allPlain_otherStmts (h : otherStmts toLowercase attributes = .ok parts) :
    AllPlain (valuesOf parts) ↔ AllPlain (writtenValues toLowercase attributes) := by
  induction attributes generalizing parts with
  | nil =>
    cases h
    exact Iff.rfl
  | cons kv _ ih =>
    obtain ⟨_, _⟩ := kv
    rw [otherStmts] at h
    split_ifs at h with hreserved hwritable
    · rw [ih h, writtenValues, writtenValues, filter_cons_of_neg (by simpa using hreserved)]
    · obtain ⟨_, hrest, hparts⟩ := bind_eq_ok.1 h
      cases hparts
      have hkey := plain_of_isWritableAdUserAttribute hwritable
      rw [writtenValues, filter_cons_of_pos (by simpa using hreserved), map_cons,
        allPlain_cons, ← writtenValues, ← ih hrest]
      simp [valuesOf_code, valuesOf_value, allPlain_cons, hkey]

theorem allPlain_groupParams {name scope category : Text} (hname : Plain name)
    (hscope : Plain scope) (hcategory : Plain category) (targetOu description : Text) :
    AllPlain (valuesOf (groupParams name scope category targetOu description)) ↔
      AllPlain [targetOu, description] := by
  have hempty : Plain [] := nofun
  rw [groupParams, valuesOf_append, valuesOf_append,
    allPlain_cons, allPlain_cons, ← plain_trim_iff (s := description)]
  split_ifs with hou hdesc hdesc
  all_goals simp [*]

end Abyssal.Gravekeeper
