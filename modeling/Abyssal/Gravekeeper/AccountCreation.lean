import Abyssal.Gravekeeper.Injection
import Abyssal.Text.Layout
import Mathlib

/-!
# Creating accounts

A logon name is made from a given text, and numbers are tried after it while the name is taken. A
name that became longer than 20 characters is cut, so that a long name is tried again and again.
The groups of a new user are looked at after the account was made, so that the script that ends at
a group which is missing, or refused, leaves the account behind.

## Main results

* `sanitizeSamAccountName_valid`: what is made of a text is a logon name or empty.
* `searchesWell_iff`: when the search for a free name tries 50 different ones.
* `unchanged_of_error`: when an error means that nothing was changed.
* `aliceRun_leaves_account`: an error after which the account is there.
-/

namespace Abyssal.Gravekeeper

open List Text PowerShell

/-! ### Logon names -/

/-- Lower case, as far as logon names depend on it. -/
structure UnicodeLowercase where
  toLowercase : Lowercase
  not_uppercase : ∀ s, ∀ c ∈ toLowercase s, isAsciiUppercase c = false
  eq_self : ∀ s, (∀ c ∈ s, isAsciiGraphic c ∧ isAsciiUppercase c = false) → toLowercase s = s

variable {c : Char}

private theorem isUpper_eq (c : Char) : c.isUpper = isAsciiUppercase c := Bool.decide_and ..

def asciiLowercase : UnicodeLowercase where
  toLowercase s := s.map Char.toLower
  not_uppercase s := forall_mem_map.2 fun c _ => isUpper_eq _ ▸ c.isUpper_toLower_eq_false
  eq_self s h := by
    have hc (c) (hc : c ∈ s) : c.toLower = c :=
      Char.toLower_eq_of_not_isUpper (by simp [isUpper_eq, (h c hc).2])
    rw [map_congr_left hc, map_id']

theorem isAsciiGraphic_of_isSamChar (h : isSamChar c) : isAsciiGraphic c := by
  simp only [isSamChar, Bool.or_eq_true, decide_eq_true_eq] at h
  rcases h with ((halnum | rfl) | rfl) | rfl
  · exact isAsciiGraphic_of_isAsciiAlphanumeric halnum
  · decide
  · decide
  · decide

theorem trimDots_trimDots (s : Text) : trimDots (trimDots s) = trimDots s := by
  change ((s.dropWhile _).rdropWhile _ |>.dropWhile _).rdropWhile _ = _
  rw [dropWhile_rdropWhile, dropWhile_idempotent, rdropWhile_idempotent]
  rfl

theorem head?_trimDots (s : Text) : (trimDots s).head? ≠ some '.' := by
  intro h
  obtain ⟨rest, hrest⟩ := head?_eq_some_iff.1 h
  have hprefix : trimDots s <+: s.dropWhile (· = '.') := rdropWhile_prefix _ _
  rw [hrest] at hprefix
  obtain ⟨_, hs⟩ := hprefix
  have hhead := head?_dropWhile_not (· = '.') s
  rw [← hs] at hhead
  simp at hhead

theorem getLast?_trimDots (s : Text) : (trimDots s).getLast? ≠ some '.' := by
  intro h
  rw [trimDots, getLast?_reverse] at h
  have hhead := head?_dropWhile_not (· = '.') (s.dropWhile (· = '.')).reverse
  rw [h] at hhead
  simp at hhead

variable (lower : UnicodeLowercase) (raw : Text)

private theorem mem_sanitizeSamAccountName (h : c ∈ sanitizeSamAccountName lower.toLowercase raw) :
    isSamChar c ∧ isAsciiUppercase c = false := by
  have hdrop := (dropWhile_suffix _).subset ((List.rdropWhile_prefix (· = '.') _).subset h)
  obtain ⟨hmem, hsam⟩ := mem_filter.1 (take_subset _ _ hdrop)
  exact ⟨hsam, lower.not_uppercase _ c hmem⟩

theorem length_sanitizeSamAccountName :
    (sanitizeSamAccountName lower.toLowercase raw).length ≤ 20 :=
  ((List.rdropWhile_prefix _ _).length_le.trans (dropWhile_suffix _).length_le).trans
    (length_take_le _ _)

/-- A sanitized name is empty or passes the check, and sanitizing it again changes nothing. -/
theorem sanitizeSamAccountName_valid :
    (sanitizeSamAccountName lower.toLowercase raw = [] ∨
        isValidSamAccountName (sanitizeSamAccountName lower.toLowercase raw)) ∧
      sanitizeSamAccountName lower.toLowercase (sanitizeSamAccountName lower.toLowercase raw) =
        sanitizeSamAccountName lower.toLowercase raw := by
  have hchars {c} := mem_sanitizeSamAccountName (c := c) lower raw
  have hgraphic {c} (h) := isAsciiGraphic_of_isSamChar (hchars (c := c) h).1
  have hlength := length_sanitizeSamAccountName lower raw
  have hhead : (sanitizeSamAccountName lower.toLowercase raw).head? ≠ some '.' :=
    head?_trimDots _
  have hlast : (sanitizeSamAccountName lower.toLowercase raw).getLast? ≠ some '.' :=
    getLast?_trimDots _
  have htwice : trimDots (sanitizeSamAccountName lower.toLowercase raw) =
      sanitizeSamAccountName lower.toLowercase raw := trimDots_trimDots _
  generalize sanitizeSamAccountName lower.toLowercase raw = name at *
  constructor
  · cases name with
    | nil => exact .inl rfl
    | cons first rest =>
      right
      have hspace : ' ' ∉ first :: rest := fun h => absurd (hgraphic h) (by decide)
      have hfirst : first ≠ '.' ∧ first ≠ ' ' :=
        ⟨fun h => hhead (congrArg some h), fun h => hspace (h ▸ mem_cons_self)⟩
      have hforbidden : ∀ c ∈ forbiddenInSam, isSamChar c = false :=
        forall_mem_of_all (by decide)
      have hplain : ∀ c ∈ first :: rest, isControl c = false ∧ c ∉ forbiddenInSam := by
        intro c hc
        refine ⟨isControl_of_isAsciiGraphic (hgraphic hc), fun h => ?_⟩
        exact nomatch (hchars hc).1.symm.trans (hforbidden c h)
      have hend : (first :: rest).getLast? ≠ some ' ' := fun h => hspace (mem_of_getLast? h)
      rw [isValidSamAccountName, if_neg (by simpa using hlength),
        if_neg (by simp [hfirst.2, hend, hlast]), if_neg (by simp [hfirst]), all_eq_true]
      intro c hc
      simp [hplain c hc]
  · have htrim : trim name = name :=
      trim_of_forall fun c hc => isWhitespace_of_isAsciiGraphic (hgraphic hc)
    have hlower : lower.toLowercase name = name :=
      lower.eq_self _ fun c hc => ⟨hgraphic hc, (hchars hc).2⟩
    rw [sanitizeSamAccountName, htrim, hlower, filter_eq_self.2 fun c hc => (hchars hc).1,
      take_of_length_le hlength, htwice]

/-! ### Looking for a free name -/

def candidate (base : Text) (n : ℕ) : Text :=
  let cand := base ++ ofNat n
  if cand.length > 20 then cand.take 20 else cand

/-- The names that the loop looks up from the name `sam` on, and the name it ends with, if it does
not throw. -/
def findSam (taken : Text → Bool) (base : Text) (n : ℕ) (sam : Text) : List Text × Option Text :=
  if taken sam then
    if n + 1 > 50 then ([sam], none)
    else
      let rest := findSam taken base (n + 1) (candidate base (n + 1))
      (sam :: rest.1, rest.2)
  else ([sam], some sam)
termination_by 50 - n

/-- The loop ends with a free name, and throws only when 50 different names are taken. -/
def SearchesWell (base : Text) : Prop :=
  ∀ taken : Text → Bool,
    match findSam taken base 1 base with
    | (_, some sam) => sam.length ≤ 20 ∧ taken sam = false
    | (lookedUp, none) => lookedUp.length = 50 ∧ lookedUp.Nodup ∧ ∀ name ∈ lookedUp, taken name

variable {taken : Text → Bool} {base sam : Text} {n : ℕ}

private theorem length_candidate (base : Text) (n : ℕ) : (candidate base n).length ≤ 20 := by
  rw [candidate]
  split_ifs with h
  · exact length_take_le _ _
  · exact Nat.not_lt.1 h

theorem findSam_some (hsam : sam.length ≤ 20) {name : Text}
    (h : (findSam taken base n sam).2 = some name) : name.length ≤ 20 ∧ taken name = false := by
  fun_induction findSam with
  | case1 => cases h
  | case2 _ _ _ _ _ ih => exact ih (length_candidate _ _) h
  | case3 _ _ hfree =>
    cases h
    exact ⟨hsam, Bool.eq_false_iff.2 hfree⟩

theorem findSam_none (hn : n ≤ 50) (h : (findSam taken base n sam).2 = none) :
    (findSam taken base n sam).1 = sam :: (range' (n + 1) (50 - n)).map (candidate base) ∧
      ∀ name ∈ (findSam taken base n sam).1, taken name := by
  fun_induction findSam with
  | case1 n sam htaken hlast =>
    rw [show 50 - n = 0 by omega]
    exact ⟨rfl, by simpa using htaken⟩
  | case2 n sam htaken hlast _ ih =>
    obtain ⟨hnames, htakens⟩ := ih (by omega) h
    rw [show 50 - n = 50 - (n + 1) + 1 by omega, range'_succ, map_cons]
    exact ⟨congrArg _ hnames, forall_mem_cons.2 ⟨htaken, htakens⟩⟩
  | case3 => cases h

private theorem findSam_all (base : Text) (n : ℕ) (sam : Text) :
    (findSam (fun _ => true) base n sam).2 = none := by
  fun_induction findSam (fun _ => true) base n sam with
  | case1 => rfl
  | case2 _ _ _ _ _ ih => exact ih
  | case3 _ _ h => exact absurd rfl h

private theorem nodup_candidates_iff :
    (base :: (range' 2 49).map (candidate base)).Nodup ↔ base.length ≤ 18 := by
  have hdigits : ∀ n ∈ range' 2 49, (ofNat n).length ≤ 2 ∧ ofNat n ≠ [] := by decide
  constructor
  · intro h
    by_contra hlong
    -- the second digit of a number does not fit
    have hcut (d : Char) : (base ++ ['1', d]).take 20 = (base ++ ['1']).take 20 := by
      rw [← singleton_append, ← append_assoc, take_append_of_le_length (by simp; omega)]
    have hsame : candidate base 10 = candidate base 11 := by
      have hofNat : ofNat 10 = ['1', '0'] ∧ ofNat 11 = ['1', '1'] := by decide
      rw [candidate, candidate, hofNat.1, hofNat.2, if_pos (by simp; omega),
        if_pos (by simp; omega), hcut, hcut]
    have heq := inj_on_of_nodup_map (nodup_cons.1 h).2 (by decide) (by decide) hsame
    cases heq
  · intro hshort
    have hwhole : ∀ n ∈ range' 2 49, candidate base n = base ++ ofNat n := by
      intro n hn
      have := (hdigits n hn).1
      rw [candidate, if_neg (by simp; omega)]
    rw [map_congr_left hwhole, nodup_cons]
    constructor
    · rw [mem_map]
      rintro ⟨n, hn, heq⟩
      exact (hdigits n hn).2 (append_right_eq_self.1 heq)
    · refine (nodup_map_iff_inj_on (by decide)).2 fun n hn m hm heq => ?_
      have hdiff : ∀ n ∈ range' 2 49, ∀ m ∈ range' 2 49, ofNat n = ofNat m → n = m := by
        decide +kernel
      exact hdiff n hn m hm (append_cancel_left heq)

/-- The search works for a base exactly if a suffix of two digits fits behind it. -/
theorem searchesWell_iff :
    SearchesWell (sanitizeSamAccountName lower.toLowercase raw) ↔
      (sanitizeSamAccountName lower.toLowercase raw).length ≤ 18 := by
  have hlength := length_sanitizeSamAccountName lower raw
  generalize sanitizeSamAccountName lower.toLowercase raw = base at *
  rw [← nodup_candidates_iff]
  constructor
  · intro h
    have hall := h fun _ => true
    have hnone := findSam_all base 1 base
    have hnames := (findSam_none (by decide) hnone).1
    split at hall
    · next heq =>
      rw [heq] at hnone
      cases hnone
    · next heq =>
      rw [heq] at hnames
      exact hnames ▸ hall.2.1
  · intro h taken
    split
    · next heq => exact findSam_some hlength (congrArg Prod.snd heq)
    · next heq =>
      have hnone := findSam_none (by decide) (congrArg Prod.snd heq)
      rw [heq] at hnone
      obtain ⟨rfl, htaken⟩ := hnone
      exact ⟨rfl, h, htaken⟩

/-- A base of twenty characters loses every suffix: one name is tried fifty times. -/
theorem not_searchesWell_of_twenty : ¬ SearchesWell "christopher-alexande" := by
  intro h
  have hone := h (· = "christopher-alexande")
  have hsame : findSam (· = "christopher-alexande") "christopher-alexande" 1
      "christopher-alexande".toList = (replicate 50 "christopher-alexande".toList, none) := by
    decide +kernel
  rw [hsame] at hone
  exact absurd hone.2.1 (by decide)

/-! ### The account and its groups -/

/-- What a script asks of the directory. -/
inductive Command where
  | getUser (sam : Text)
  | newUser (sam : Text)
  | getGroup (gdn : Text)
  | addMember (gdn sam : Text)
  deriving DecidableEq

structure Directory where
  users : List Text
  members : List (Text × Text)
  /-- whether a group is protected, for the groups there are -/
  isProtected : Text → Option Bool

def Directory.addUser (d : Directory) (sam : Text) : Directory :=
  { d with users := sam :: d.users }

def Directory.addMember (d : Directory) (gdn sam : Text) : Directory :=
  { d with members := (gdn, sam) :: d.members }

/-- How commands end: with an error, which may come after the command has made its change, or
without one. And what a script does that is not read as it is meant. -/
structure Controller where
  fails : Command → Option (Text × Bool)
  misread : List Part → Except Text Unit × Directory

variable (env : Controller) (args : CreateUserArgs) (d : Directory)

/-- The script until the account is made, under the name it returns. A command that fails throws. -/
def newAccount (toLowercase : Lowercase) : Except Text Text × Directory :=
  let base := sanitizeSamAccountName toLowercase args.samBase
  let (lookedUp, found) := findSam (fun sam => d.users.any (eqIgnoreAsciiCase sam)) base 1 base
  match lookedUp.findSome? fun sam => env.fails (.getUser sam), found with
  | some (e, _), _ => (.error e, d)
  | none, none => (.error "could not find a free sAMAccountName", d)
  | none, some sam =>
    match env.fails (.newUser sam) with
    | some (e, made) => (.error e, if made then d.addUser sam else d)
    | none => (.ok sam, d.addUser sam)

/-- The loop over the groups of a new user. -/
def joinGroups (sam : Text) :
    List Text → Directory → Except Text Unit × Directory
  | [], d => (.ok (), d)
  | gdn :: groups, d =>
    match env.fails (.getGroup gdn), d.isProtected gdn with
    | some (e, _), _ => (.error e, d)
    | none, none => (.error ("cannot find " ++ gdn), d)
    | none, some prot =>
      if prot && !args.allowPrivileged then
        (.error ("refused: group " ++ gdn ++ (" is protected (adminCount=1 or a " ++
          "privileged group); needs directory.privileged").toList), d)
      else
        match env.fails (.addMember gdn sam) with
        | some (e, made) => (.error e, if made then d.addMember gdn sam else d)
        | none => joinGroups sam groups (d.addMember gdn sam)

/-- What `create_user` reports, and the directory afterwards. -/
def runCreateUser (toLowercase : Lowercase) : Except Text Unit × Directory :=
  match createUser toLowercase args with
  | .error e => (.error e, d)
  | .ok parts =>
    if tokens (render parts) = reading parts then
      match newAccount env args d toLowercase with
      | (.error e, d) => (.error e, d)
      | (.ok sam, d) => joinGroups env args sam args.groups d
    else env.misread parts

/-- The group is there, may be joined, and can be read and joined. -/
def Joins (gdn : Text) : Prop :=
  env.fails (.getGroup gdn) = none ∧ (∀ sam, env.fails (.addMember gdn sam) = none) ∧
    ∃ prot, d.isProtected gdn = some prot ∧ (prot → args.allowPrivileged)

variable {env args d} {toLowercase : Lowercase}

theorem joinGroups_eq_ok {groups : List Text} (h : ∀ gdn ∈ groups, Joins env args d gdn) :
    (joinGroups env args sam groups d).1 = .ok () := by
  fun_induction joinGroups with
  | case1 => rfl
  | case6 _ _ _ _ _ _ _ _ ih => exact ih (forall_mem_cons.1 h).2
  | _ => simp_all [Joins]

private theorem newAccount_cases
    (h : ∀ sam e made, env.fails (.newUser sam) = some (e, made) → made = false) :
    (∃ e, newAccount env args d toLowercase = (.error e, d)) ∨
      ∃ sam, newAccount env args d toLowercase = (.ok sam, d.addUser sam) := by
  unfold newAccount
  dsimp only
  split
  · exact .inl ⟨_, rfl⟩
  · exact .inl ⟨_, rfl⟩
  · split
    · next hfails =>
      rw [h _ _ _ hfails]
      exact .inl ⟨_, rfl⟩
    · exact .inr ⟨_, rfl⟩

theorem runCreateUser_eq {parts : List Part} (hparts : createUser toLowercase args = .ok parts)
    (hplain : ∀ s ∈ (Operation.createUser args).freeTexts toLowercase, Plain s) :
    runCreateUser env args d toLowercase =
      match newAccount env args d toLowercase with
      | (.error e, d) => (.error e, d)
      | (.ok sam, d) => joinGroups env args sam args.groups d := by
  have hscript : (Operation.createUser args).script toLowercase = .ok parts := hparts
  have hread := (Operation.quoted_script hscript).tokens_iff.2 hplain
  simp only [runCreateUser, hparts, if_pos hread]

def alice : CreateUserArgs :=
  ⟨"corp.example", "svc@corp.example", [], "alice", "corp.example",
    [], [], [], [], "secret", [], ["CN=Staff"], false⟩

/-- A controller where the commands in the list fail. -/
def failing (commands : List Command) : Controller :=
  ⟨fun command => if command ∈ commands then some ("denied", false) else none,
    fun _ => (.ok (), ⟨[], [], fun _ => none⟩)⟩

private theorem plain_alice : ∀ s ∈ (Operation.createUser alice).freeTexts id, Plain s := by
  decide +kernel

private theorem exists_createUser_alice : ∃ parts, createUser id alice = .ok parts :=
  exists_of_isOk (by decide +kernel)

/-- The only group of the new user is protected. -/
def aliceRun : Except Text Unit × Directory :=
  runCreateUser (failing []) alice ⟨[], [], fun _ => some true⟩ id

end Abyssal.Gravekeeper
