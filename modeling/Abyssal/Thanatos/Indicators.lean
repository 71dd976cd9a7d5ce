import Abyssal.Thanatos.Events
import Abyssal.Text.Layout

/-!
# Indicators in log lines

An indicator of compromise, and the text of a suppression rule, is looked for as a whole token of a
line. What is stored need not be a token.

## Main results

* `detects_exact_iff`: the indicators that are found.
-/

namespace Abyssal.Thanatos

open Text List Option Setup

variable {setup : Setup} {value line token : Text} {c : Char}

def optionalTrimmed (raw : Text) : Option Text :=
  if trim raw = [] then none else some (trim raw)

def IocType.normalize (raw : Text) : IocType → Option Text
  | ip => optionalTrimmed raw
  | domain | hash => (optionalTrimmed raw).map toAsciiLowercase

/-- What is looked for: an indicator, or the text of a suppression rule. -/
inductive Sought where
  | ioc (iocType : IocType)
  | textContains

namespace Sought

/-- The value that is stored for what an operator enters, if it is. -/
def stored (raw : Text) : Sought → Option Text
  | ioc iocType => (iocType.normalize raw).filter (byteLength · ≤ 255)
  | textContains => (optionalTrimmed raw).filter (3 ≤ ·.length)

def detects (setup : Setup) (value line : Text) : Sought → Bool
  | ioc iocType => Ioc.matches setup ⟨iocType, value, .high, none, none⟩ line
  | textContains => setup.containsToken line value

/-- Domains and hashes are compared in lower case. -/
def folded (s : Text) : Sought → Text
  | ioc .domain | ioc .hash => toAsciiLowercase s
  | ioc .ip | textContains => s

end Sought

def Setup.isTokenChar (setup : Setup) (c : Char) : Bool :=
  setup.isAlphanumeric c || c = '.' || c = '-' || c = '_'

/-- What the standard library says about letters and digits. -/
structure Setup.Lawful (setup : Setup) : Prop where
  ascii : ∀ {c}, isAsciiAlphanumeric c = true → setup.isAlphanumeric c = true
  whitespace : ∀ {c}, isWhitespace c = true → setup.isAlphanumeric c = false

variable {sought : Sought}

/-- The value stands in the line between blanks or line ends. -/
def Stands (sought : Sought) (value line : Text) : Prop :=
  ∃ before seen after, line = before ++ (seen ++ after) ∧ sought.folded seen = value ∧
    (∀ c ∈ before.getLast?, isWhitespace c = true) ∧ ∀ c ∈ after.head?, isWhitespace c = true

/-- Wherever the value is in the line, it is part of a longer run of token characters. -/
def OnlyInside (setup : Setup) (sought : Sought) (value line : Text) : Prop :=
  ∀ before seen after, line = before ++ (seen ++ after) → sought.folded seen = value →
    (∃ c ∈ before.getLast?, setup.isTokenChar c = true) ∨
      ∃ c ∈ after.head?, setup.isTokenChar c = true

theorem mem_tokens_iff : token ∈ setup.tokens line ↔
    ∃ before after, line = before ++ (token ++ after) ∧ (∀ c ∈ token, setup.isTokenChar c) ∧
      (∀ c ∈ before.getLast?, setup.isTokenChar c = false) ∧
      ∀ c ∈ after.head?, setup.isTokenChar c = false := by
  rw [tokens, mem_splitOnP_iff]
  simp only [Bool.not_eq_false', Bool.not_eq_true', isTokenChar]

private theorem isTokenChar_lowercase_iff (hsetup : setup.Lawful) :
    setup.isTokenChar (if isAsciiUppercase c then Char.ofNat (c.toNat + 32) else c) ↔
      setup.isTokenChar c := by
  split_ifs with hupper
  · have hlower : setup.isAlphanumeric (Char.ofNat (c.toNat + 32)) :=
      hsetup.ascii (by simp [isAsciiAlphanumeric, (lowercase_of_isAsciiUppercase hupper).1])
    have hc : setup.isAlphanumeric c := hsetup.ascii (by simp [isAsciiAlphanumeric, hupper])
    simp [isTokenChar, hlower, hc]
  · exact Iff.rfl

theorem isTokenChar_folded_iff (hsetup : setup.Lawful) (s : Text) :
    (∀ c ∈ sought.folded s, setup.isTokenChar c) ↔ ∀ c ∈ s, setup.isTokenChar c := by
  have hlower : (∀ c ∈ toAsciiLowercase s, setup.isTokenChar c) ↔ ∀ c ∈ s, setup.isTokenChar c := by
    rw [toAsciiLowercase, List.forall_mem_map]
    exact forall₂_congr fun c _ => isTokenChar_lowercase_iff hsetup
  cases sought with
  | textContains => exact Iff.rfl
  | ioc iocType =>
    cases iocType with
    | ip => exact Iff.rfl
    | domain | hash => exact hlower

theorem isTokenChar_of_isWhitespace (hsetup : setup.Lawful) (h : isWhitespace c) :
    setup.isTokenChar c = false := by
  have hne : ∀ d, isWhitespace d = false → c ≠ d := by
    rintro d hd rfl
    exact Bool.false_ne_true (hd.symm.trans h)
  simp [isTokenChar, hsetup.whitespace h, hne '.' rfl, hne '-' rfl, hne '_' rfl]

theorem of_stored {raw : Text} (h : sought.stored raw = some value) :
    value ≠ [] ∧ sought.folded value = value := by
  have htrimmed : ∀ {s}, optionalTrimmed raw = some s → s ≠ [] := by
    intro s hs
    rw [optionalTrimmed, ite_none_left_eq_some] at hs
    exact some.inj hs.2 ▸ hs.1
  have hlower : ∀ {s}, (optionalTrimmed raw).map toAsciiLowercase = some s →
      s ≠ [] ∧ toAsciiLowercase s = s := by
    intro s hs
    obtain ⟨t, ht, rfl⟩ := map_eq_some_iff.1 hs
    exact ⟨by simpa [toAsciiLowercase] using htrimmed ht, toAsciiLowercase_toAsciiLowercase t⟩
  cases sought with
  | textContains => exact ⟨htrimmed (filter_eq_some_iff.1 h).1, rfl⟩
  | ioc iocType =>
    have hnormal := (filter_eq_some_iff.1 h).1
    cases iocType with
    | ip => exact ⟨htrimmed hnormal, rfl⟩
    | domain | hash => exact hlower hnormal

/-- A value is found where it is a token, and a domain also where it ends a longer one. -/
theorem detects_iff (hne : value ≠ []) (hvalue : sought.folded value = value) :
    sought.detects setup value line ↔ ∃ token ∈ setup.tokens line, sought.folded token = value ∨
        sought = .ioc .domain ∧ '.' :: value <:+ toAsciiLowercase token := by
  have hany : ∀ p : Text → Bool, ((setup.tokens line).filter (· ≠ [])).any p ↔
      ∃ token ∈ setup.tokens line, token ≠ [] ∧ p token := by
    simp
  have hlower : ∀ {token}, toAsciiLowercase token ≠ [] → token ≠ [] := by
    rintro token h rfl
    exact h rfl
  cases sought with
  | textContains => simp [Sought.detects, containsToken, Sought.folded, hne]
  | ioc iocType =>
    refine (hany _).trans (exists_congr fun token => and_congr_right fun _ => ?_)
    cases iocType with
    | ip => simpa [Sought.folded] using fun h : token = value => h ▸ hne
    | hash =>
      have hself : toAsciiLowercase value = value := hvalue
      simpa [Sought.folded, hself] using fun h => hlower (h ▸ hne)
    | domain =>
      simp only [Sought.folded, Bool.or_eq_true, decide_eq_true_eq, isSuffixOf_iff_suffix, true_and]
      refine and_iff_right_of_imp fun h => hlower ?_
      rcases h with rfl | hend
      · exact hne
      · exact fun hnil => cons_ne_nil _ _ (suffix_nil.1 (hnil ▸ hend))

/-- A stored value is found wherever it stands between blanks, exactly if it is made of token
characters; and it is found inside a longer run only if it is a domain and ends the run after a
dot. -/
theorem detects_exact_iff (hsetup : setup.Lawful) {raw : Text}
    (hstored : sought.stored raw = some value) (line : Text) :
    ((Stands sought value line → sought.detects setup value line) ∧
      (OnlyInside setup sought value line → sought.detects setup value line = false)) ↔
    (Stands sought value line → ∀ c ∈ value, setup.isTokenChar c) ∧
      (sought = .ioc .domain → OnlyInside setup sought value line →
        ∀ token ∈ setup.tokens line, ¬ '.' :: value <:+ toAsciiLowercase token) := by
  obtain ⟨hne, hvalue⟩ := of_stored hstored
  have hiff := @detects_iff setup value line sought hne hvalue
  refine and_congr (forall_congr' fun hstands => ?_) ?_
  · constructor
    · intro hfound
      obtain ⟨token, hmem, heq | ⟨rfl, hend⟩⟩ := hiff.1 hfound
      · obtain ⟨-, -, -, htoken, -⟩ := mem_tokens_iff.1 hmem
        exact heq ▸ (isTokenChar_folded_iff hsetup token).2 htoken
      · obtain ⟨-, -, -, htoken, -⟩ := mem_tokens_iff.1 hmem
        have hlower := (@isTokenChar_folded_iff setup (.ioc .domain) hsetup token).2 htoken
        exact fun c hc => hlower c (hend.subset (mem_cons_of_mem _ hc))
    · intro htoken
      obtain ⟨before, seen, after, hline, rfl, hbefore, hafter⟩ := hstands
      refine hiff.2 ⟨seen, mem_tokens_iff.2 ⟨before, after, hline, ?_, ?_, ?_⟩, .inl rfl⟩
      · exact (isTokenChar_folded_iff hsetup seen).1 htoken
      · exact fun c hc => isTokenChar_of_isWhitespace hsetup (hbefore c hc)
      · exact fun c hc => isTokenChar_of_isWhitespace hsetup (hafter c hc)
  · constructor
    · rintro hnone hdomain hinside token hmem hend
      have hfound := hiff.2 ⟨token, hmem, .inr ⟨hdomain, hend⟩⟩
      exact Bool.false_ne_true ((hnone hinside).symm.trans hfound)
    · intro hdomain hinside
      refine Bool.eq_false_iff.2 fun hfound => ?_
      obtain ⟨token, hmem, heq | ⟨hkind, hend⟩⟩ := hiff.1 hfound
      · obtain ⟨before, after, hline, -, hbefore, hafter⟩ := mem_tokens_iff.1 hmem
        rcases hinside before token after hline heq with ⟨c, hc, htoken⟩ | ⟨c, hc, htoken⟩
        · exact Bool.false_ne_true ((hbefore c hc).symm.trans htoken)
        · exact Bool.false_ne_true ((hafter c hc).symm.trans htoken)
      · exact hdomain hkind hinside token hmem hend

private theorem lawful_plainSetup : plainSetup.Lawful where
  ascii h := h
  whitespace h := by
    refine Bool.eq_false_iff.2 fun halpha => Bool.false_ne_true (Eq.trans ?_ h)
    exact (isWhitespace_of_isAsciiGraphic (isAsciiGraphic_of_isAsciiAlphanumeric halpha)).symm

theorem detects_exact_iff_ipv4 : (Sought.ioc .ip).detects plainSetup "10.0.0.5" "from 10.0.0.5" :=
  ((@detects_exact_iff plainSetup _ (.ioc .ip) lawful_plainSetup "10.0.0.5" (by decide)
    _).2 ⟨fun _ => forall_mem_of_all (by decide), fun h => absurd h (by simp)⟩).1
    ⟨"from ", "10.0.0.5", [], by decide, rfl, by simp; decide, by simp⟩

/-- The colons of an address of version 6 cut it into tokens. -/
theorem detects_ipv6 :
    (Sought.ioc .ip).stored "fe80::1" = some "fe80::1".toList ∧
      Stands (.ioc .ip) "fe80::1" "from fe80::1" ∧
      (Sought.ioc .ip).detects plainSetup "fe80::1" "from fe80::1" = false :=
  ⟨by decide, ⟨"from ", "fe80::1", [], by decide, rfl, by simp; decide, by simp⟩,
    by decide⟩

end Abyssal.Thanatos
