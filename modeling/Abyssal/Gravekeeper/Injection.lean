import Abyssal.Gravekeeper.Pieces

/-!
# Values that become code

Whether a script is read as it is meant depends on its distinguished names and free texts only. They
are accepted with typographic quotes in them, each of which lets a part of the value be read as
code.

## Main results

* `literal_and_scripts_iff`: which values stay literals.
-/

namespace Abyssal.Gravekeeper

open PowerShell List Text

/-! ## Accepted operations -/

/-- The pieces can be read, and their values are plain exactly when the given texts are. -/
structure Quoted (parts : List Part) (free : List Text) : Prop where
  leads : Leads .code parts .code
  allPlain_iff : AllPlain (valuesOf parts) ↔ AllPlain free

theorem quoted_psChecked {body : List Part} {free : List Text} (h : Fits body)
    (hvalues : AllPlain (valuesOf body) ↔ AllPlain free) : Quoted (psChecked body) free where
  leads := h.leads_psChecked
  allPlain_iff := by rw [valuesOf_psChecked, hvalues]

theorem plain_of_validateWrite {domainDns upn targetDn : Text} {a : Unit}
    (h : validateWrite domainDns upn targetDn = .ok a) : Plain domainDns ∧ Plain upn := by
  obtain ⟨hdomain, h⟩ := ensure_bind_eq_ok.1 h
  obtain ⟨hupn, -⟩ := ensure_bind_eq_ok.1 h
  exact ⟨plain_of_isValidHostname hdomain, plain_of_isValidUserPrincipalName hupn⟩

section

variable {domainDns upn targetDn : Text} {allow : Bool} {parts : List Part}

theorem quoted_write {free : List Text} {names guard rest : List Part} {a : Unit}
    (h : validateWrite domainDns upn targetDn = .ok a) (hnames : Leads .code names .code)
    (hguard : Leads .code guard .code) (hrest : Fits rest)
    (hvalues : AllPlain (valuesOf (names ++ guard ++ rest)) ↔ AllPlain free) :
    Quoted (psChecked (credPreamble domainDns upn ++ names ++ guard ++ rest)) free := by
  refine quoted_psChecked
    (.append (.join (.join (leads_credPreamble domainDns upn) hnames) hguard) hrest) ?_
  rw [← hvalues, append_assoc, append_assoc, valuesOf_append, allPlain_append,
    append_assoc, valuesOf_credPreamble, allPlain_cons, allPlain_cons]
  have hplain := plain_of_validateWrite h
  exact and_iff_right ⟨hplain.2, hplain.1, allPlain_nil⟩

theorem quoted_userWrite {rest : List Part} {a : Unit}
    (h : validateWrite domainDns upn targetDn = .ok a) (hrest : Fits rest)
    (hvalues : AllPlain (valuesOf rest)) :
    Quoted (psChecked (credAndGuard domainDns upn targetDn allow ++ rest)) [targetDn] := by
  refine quoted_psChecked (.append (leads_credAndGuard domainDns upn targetDn allow) hrest) ?_
  simp [plain_of_validateWrite h, hvalues]

open Fits

theorem quoted_undoOffboard {originalOu : Text} {groups : List Text}
    (h : undoOffboard domainDns upn targetDn originalOu groups allow = .ok parts) :
    Quoted parts (targetDn :: originalOu :: groups) := by
  obtain ⟨_, hwrite, h⟩ := bind_eq_ok.1 h
  obtain ⟨-, h⟩ := ensure_bind_eq_ok.1 h
  obtain ⟨_, -, h⟩ := bind_eq_ok.1 h
  cases h
  refine quoted_psChecked (.append (.join (.join (.join (.join (leads_credPreamble _ _) ?_)
    (leads_objectGuard _)) ?_) (leads_arrayOf _)) ?_) ?_
  · repeat' first | apply Leads.lit | apply Leads.value | decide | rfl
  · repeat' first | apply Leads.lit | decide | rfl
  · repeat' first | apply last | apply Fits.lit | decide
  · simp [plain_of_validateWrite hwrite]

theorem quoted_setEnabled {enabled : Bool}
    (h : setEnabled domainDns upn targetDn enabled allow = .ok parts) :
    Quoted parts [targetDn] := by
  obtain ⟨_, hwrite, h⟩ := bind_eq_ok.1 h
  cases h
  have hmsg :
      Plain (if enabled then "Account enabled." else "Account disabled.") := by
    cases enabled <;> decide
  have hvalues := (allPlain_cons _ _).2 ⟨hmsg, allPlain_nil⟩
  cases enabled <;>
    exact quoted_userWrite hwrite (.lit (by decide) (.lit (by decide) .value_last)) hvalues

theorem quoted_changeGroupMember {change : GroupMemberChange} {groupDn memberDn : Text}
    (h : changeGroupMember change domainDns upn groupDn memberDn allow = .ok parts) :
    Quoted parts [groupDn, memberDn] := by
  obtain ⟨hdomain, h⟩ := ensure_bind_eq_ok.1 h
  obtain ⟨hupn, h⟩ := ensure_bind_eq_ok.1 h
  obtain ⟨-, h⟩ := ensure_bind_eq_ok.1 h
  obtain ⟨-, h⟩ := ensure_bind_eq_ok.1 h
  cases h
  have hmsg : Plain change.msg := by cases change <;> decide
  refine quoted_psChecked (.append (.join (.join (.join (.join (leads_credPreamble _ _) ?_)
    (leads_groupGuard _)) ?_) (leads_action _)) ?_) ?_
  · repeat' first | apply Leads.lit | apply Leads.value | decide | rfl
  · exact .lit (by decide) rfl
  · exact .lit (by decide) .value_last
  · simp [plain_of_isValidHostname hdomain, plain_of_isValidUserPrincipalName hupn, hmsg]

end

private theorem plain_of_groupScopeValue {scope value : Text}
    (h : groupScopeValue scope = some value) : Plain value := by
  rw [groupScopeValue] at h
  split_ifs at h <;> exact Option.some.inj h ▸ (by decide)

private theorem plain_of_groupCategoryValue {category value : Text}
    (h : groupCategoryValue category = some value) : Plain value := by
  rw [groupCategoryValue] at h
  split_ifs at h <;> exact Option.some.inj h ▸ (by decide)

variable {parts : List Part} {toLowercase : Lowercase}

theorem quoted_createGroup {args : CreateGroupArgs} (h : createGroup toLowercase args = .ok parts) :
    Quoted parts [args.targetOu, args.description] := by
  obtain ⟨hdomain, h⟩ := ensure_bind_eq_ok.1 h
  obtain ⟨hupn, h⟩ := ensure_bind_eq_ok.1 h
  obtain ⟨-, h⟩ := ensure_bind_eq_ok.1 h
  obtain ⟨-, h⟩ := ensure_bind_eq_ok.1 h
  cases hscope : groupScopeValue args.scope with
  | none => simp [hscope] at h
  | some =>
    cases hcategory : groupCategoryValue args.category with
    | none => simp [hscope, hcategory] at h
    | some =>
      rw [hscope, hcategory] at h
      cases h
      refine quoted_psChecked (.append (.join (.join (leads_credPreamble _ _) ?_)
        (leads_groupParams _ _ _ _ _)) ?_) ?_
      · exact .lit (by decide) rfl
      · repeat' first | apply Fits.last | apply Fits.lit | decide
      · rw [valuesOf_append, valuesOf_append, valuesOf_append, allPlain_append,
          allPlain_append, allPlain_groupParams (plain_sanitizeSamAccountName _ _)
            (plain_of_groupScopeValue hscope) (plain_of_groupCategoryValue hcategory)]
        simp [plain_of_isValidHostname hdomain, plain_of_isValidUserPrincipalName hupn]

theorem quoted_createUser {args : CreateUserArgs} (h : createUser toLowercase args = .ok parts) :
    Quoted parts ([args.targetOu, args.givenName, args.surname, args.displayName, args.email] ++
      writtenValues toLowercase args.attributes ++ args.groups) := by
  obtain ⟨hdomain, h⟩ := ensure_bind_eq_ok.1 h
  obtain ⟨hupn, h⟩ := ensure_bind_eq_ok.1 h
  obtain ⟨hsuffix, h⟩ := ensure_bind_eq_ok.1 h
  obtain ⟨-, h⟩ := ensure_bind_eq_ok.1 h
  obtain ⟨-, h⟩ := ensure_bind_eq_ok.1 h
  obtain ⟨-, h⟩ := ensure_bind_eq_ok.1 h
  obtain ⟨_, -, h⟩ := bind_eq_ok.1 h
  obtain ⟨other, hother, h⟩ := bind_eq_ok.1 h
  cases h
  refine quoted_psChecked (fits_createUserBody args _ (leads_otherStmts hother)) ?_
  simp [createUserBody, allPlain_otherStmts hother, plain_of_isValidHostname hdomain,
    plain_of_isValidUserPrincipalName hupn, plain_of_isValidHostname hsuffix,
    plain_sanitizeSamAccountName]

/-- The arguments that go into the script and that the validators leave free. -/
def Operation.freeTexts (toLowercase : Lowercase) : Operation → List Text
  | .search _ query => [query]
  | .getObject _ dn => [dn]
  | .moveObject _ _ targetDn newParentOu _ => [targetDn, newParentOu]
  | .deleteObject _ _ targetDn _ => [targetDn]
  | .offboard _ _ targetDn disabledOu _ => [targetDn, disabledOu]
  | .undoOffboard _ _ targetDn originalOu groups _ => targetDn :: originalOu :: groups
  | .createGroup args => [args.targetOu, args.description]
  | .deleteGroup _ _ targetDn _ => [targetDn]
  | .changeGroupMember _ _ _ groupDn memberDn _ => [groupDn, memberDn]
  | .unlockAccount _ _ targetDn _ => [targetDn]
  | .setEnabled _ _ targetDn _ _ => [targetDn]
  | .setPassword _ _ targetDn _ _ => [targetDn]
  | .createUser args =>
    [args.targetOu, args.givenName, args.surname, args.displayName, args.email] ++
      writtenValues toLowercase args.attributes ++ args.groups

theorem Operation.quoted_script {op : Operation}
    (h : op.script toLowercase = .ok parts) : Quoted parts (op.freeTexts toLowercase) := by
  cases op with
  | search | getObject =>
    obtain ⟨hdomain, h⟩ := ensure_bind_eq_ok.1 h
    obtain ⟨-, h⟩ := ensure_bind_eq_ok.1 h
    cases h
    refine quoted_psChecked ?_ ?_
    · repeat' first | apply Fits.last | apply Fits.lit | apply Fits.value | decide
    · simp [freeTexts, plain_of_isValidHostname hdomain, plain_trim_iff]
  | moveObject | offboard =>
    obtain ⟨_, hwrite, h⟩ := bind_eq_ok.1 h
    obtain ⟨-, h⟩ := ensure_bind_eq_ok.1 h
    cases h
    refine quoted_write hwrite ?_ (leads_objectGuard _) ?_ ?_
    · repeat' first | apply Leads.lit | apply Leads.value | decide | rfl
    · repeat' first | apply Fits.last | apply Fits.lit | decide
    · simp [freeTexts]
  | deleteObject | deleteGroup =>
    obtain ⟨_, hwrite, h⟩ := bind_eq_ok.1 h
    cases h
    refine quoted_write hwrite ?_ ?_ ?_ ?_
    · repeat' first | apply Leads.lit | apply Leads.value | decide | rfl
    · simp only [leads_objectGuard, leads_groupGuard]
    · repeat' first | apply Fits.last | apply Fits.lit | decide
    · simp [freeTexts]
  | unlockAccount =>
    obtain ⟨_, hwrite, h⟩ := bind_eq_ok.1 h
    cases h
    refine quoted_userWrite hwrite ?_ allPlain_nil
    repeat' first | apply Fits.last | apply Fits.lit | decide
  | setPassword =>
    obtain ⟨_, hwrite, h⟩ := bind_eq_ok.1 h
    obtain ⟨-, h⟩ := ensure_bind_eq_ok.1 h
    cases h
    refine quoted_userWrite hwrite ?_ allPlain_nil
    repeat' first | apply Fits.last | apply Fits.lit | decide
  | undoOffboard => exact quoted_undoOffboard h
  | createGroup => exact quoted_createGroup h
  | changeGroupMember => exact quoted_changeGroupMember h
  | setEnabled => exact quoted_setEnabled h
  | createUser => exact quoted_createUser h

theorem Quoted.tokens_iff {free : List Text} (h : Quoted parts free) :
    tokens (render parts) = reading parts ↔ AllPlain free := by
  rw [tokens_render_iff h.leads, ← h.allPlain_iff]
  exact forall_congr' fun s => imp_congr mem_valuesOf.symm Iff.rfl

/-! ## The law of quoting -/

/-- A quoted value is one verbatim string with that value exactly when it has no typographic quote,
and a script is read as it is meant exactly when its texts and distinguished names have none. -/
theorem literal_and_scripts_iff (toLowercase : Lowercase) :
    (∀ s before after : Text, run .code before = .code → ¬ StartsWithQuote after →
      (tokens (before ++ psQuote s ++ after) = tokens before ++ .literal s :: tokens after ↔
        Plain s)) ∧
    ∀ (op : Operation) (parts : List Part), op.script toLowercase = .ok parts →
      (tokens (render parts) = reading parts ↔ ∀ s ∈ op.freeTexts toLowercase, Plain s) :=
  ⟨fun s _ _ hbefore hafter => tokens_psQuote_iff s hbefore hafter,
    fun _ _ h => (Operation.quoted_script h).tokens_iff⟩

theorem isOk_search {domainDns query : Text} :
    (search domainDns query).isOk ↔ isValidHostname domainDns ∧
      trim query ≠ [] ∧ byteLength (trim query) ≤ 256 := by
  rw [search, isOk_ensure_bind, isOk_ensure_bind]
  exact and_congr Iff.rfl (and_iff_left rfl)

theorem exists_of_isOk {ε α : Type} {x : Except ε α} (h : x.isOk) : ∃ a, x = .ok a := by
  cases x with
  | error => cases h
  | ok a => exact ⟨a, rfl⟩

theorem literal_and_scripts_iff_apostrophe :
    tokens (psQuote "O'Neil") = [.literal "O'Neil"] ∧
    ∃ parts, (Operation.search "corp.example" "O'Neil").script id = .ok parts ∧
      tokens (render parts) = reading parts := by
  obtain ⟨hvalue, hscript⟩ := literal_and_scripts_iff id
  obtain ⟨parts, hparts⟩ := exists_of_isOk (isOk_search.2
    (show isValidHostname "corp.example" ∧ trim "O'Neil" ≠ [] ∧
      byteLength (trim "O'Neil") ≤ 256 by decide))
  have hop : (Operation.search "corp.example" "O'Neil").script id = .ok parts :=
    hparts
  refine ⟨?_, parts, hop, (hscript _ parts hop).2 ?_⟩
  · exact append_nil (psQuote "O'Neil") ▸
      (hvalue "O'Neil" [] [] rfl (by decide)).2 (by decide)
  · exact forall_mem_singleton.2 (show Plain "O'Neil" by decide)

/-- A query with two typographic quotes ends its string, and what stands between them is code. -/
theorem not_literal_of_typographic :
    tokens (psQuote "\u2019; exit; \u2019") =
      .literal [] :: ("; exit; ".toList.map Token.code ++ [.literal []]) ∧
    ∃ parts, (Operation.search "corp.example" "\u2019; exit; \u2019").script id =
        .ok parts ∧ tokens (render parts) ≠ reading parts := by
  obtain ⟨parts, hparts⟩ := exists_of_isOk (isOk_search.2
    (show isValidHostname "corp.example" ∧ trim "\u2019; exit; \u2019" ≠ [] ∧
      byteLength (trim "\u2019; exit; \u2019") ≤ 256 by decide))
  have hop : (Operation.search _ _).script id = .ok parts := hparts
  refine ⟨by decide, parts, hop, fun h => ?_⟩
  have hplain := (Operation.quoted_script hop).tokens_iff.1 h _ mem_cons_self
  exact absurd hplain (by decide)

end Abyssal.Gravekeeper
