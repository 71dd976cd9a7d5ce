import Abyssal.Sepulchre.Rendering
import Mathlib.Data.List.Nodup

/-!
# Reading rendered files back

The reader skips empty lines and comments, trims each line, takes a line in brackets (for `sshd`,
one that begins with `Match`) as the heading of a section, and cuts others into a key and a value.
The arguments of the mount unit may have a line end in them, a share the name of another section,
and a path characters for which the reader takes another value than the one that is written.

## Main results

* `exact_of_harmless`: arguments that give the file that is meant.
* `not_exact_of_injectingMount_and_of_globalShare`: some that do not.
-/

namespace Abyssal.Sepulchre

open Text Agent List Option

/-! ### The reader -/

inductive Item where
  | heading (name : Text)
  | directive (key value : Text)
  /-- a line of which another value is taken than the one that is written -/
  | other (line : Text)
  deriving DecidableEq

/-- None of the special characters is in the text. -/
def free (special s : Text) : Bool := s.all (!special.contains ·)

/-- A value that the reader takes as it is written. -/
def asWritten (special value : Text) : Bool := trim value = value && free special value

/-- `systemd` and Samba replace what stands behind a percent sign, and a line that ends with a
backslash goes on in the next one; Samba takes quotation marks off. -/
def iniSpecial : Text := ['%', '\\', '"']

def readIni (line : Text) : Option Item :=
  let trimmed := trim line
  if trimmed = [] ∨ trimmed.head?.any ['#', ';'].contains = true then none
  else if trimmed.head? = some '[' ∧ trimmed.getLast? = some ']' then
    some (.heading (trim trimmed.tail.dropLast))
  else (keyValue line).map fun pair =>
    if asWritten iniSpecial pair.2 then .directive pair.1 pair.2 else .other line

/-- `sshd` replaces what stands behind a percent sign; what comes behind a blank is another argument
or a comment. -/
def sshdSpecial : Text := ['%', ' ', '\t', '"', '\'', '\\', '#']

def readSshd (line : Text) : Option Item :=
  let trimmed := trim line
  if trimmed = [] ∨ trimmed.head? = some '#' then none
  else
    let key := trimmed.takeWhile (!isWhitespace ·)
    let value := trim (trimmed.dropWhile (!isWhitespace ·))
    if key = "Match" then some (.heading value)
    else some (if asWritten sshdSpecial value then .directive key value else .other line)

/-- A line of a file of credentials. Nothing is trimmed. -/
def readCredential (line : Text) : Option Item :=
  (splitOnce '=' line).map fun pair => .directive pair.1 pair.2

def Config.readLine : Config → Text → Option Item
  | .sshd _ => readSshd
  | .samba _ _ => readIni
  | .mount _ => readIni
  | .cifs _ => readCredential

/-- `systemd` ends a line at a carriage return and at a zero byte as well. -/
def lineEnds : Text := ['\n', '\r', '\x00']

/-- The sections and directives of a text, read as a file of this kind. -/
def Config.read (config : Config) (out : Text) : List Item :=
  (out.splitOnP lineEnds.contains).filterMap config.readLine

/-! ### What the files are meant to have -/

def matchBlockItems (username chrootDir : Text) : List Item := [
  .heading ("User " ++ username),
  .directive "ChrootDirectory" chrootDir,
  .directive "ForceCommand" "internal-sftp",
  .directive "AllowTcpForwarding" "no",
  .directive "X11Forwarding" "no",
  .directive "PermitTTY" "no",
  .other "    AuthorizedKeysFile /etc/ssh/sepulchre/authorized_keys/%u"]

def globalItems (encryptionRequired : Bool) : List Item := [
  .heading "global",
  .directive "server min protocol" "SMB3",
  .directive "server signing" "mandatory",
  .directive "server smb encrypt"
    (if encryptionRequired then "required" else "desired").toList]

def Share.items (share : Share) : List Item := [
  .heading share.name,
  .directive "path" share.path,
  .directive "valid users" (unwords share.validUsers),
  .directive "read only" (if share.readOnly then "yes" else "no").toList,
  .directive "guest ok" "no",
  .directive "browseable" "yes",
  .directive "create mask" "0640",
  .directive "directory mask" "0750"]

def Mount.items (mount : Mount) : List Item := [
  .heading "Unit",
  .directive "Description" ("Sepulchre-managed mount for " ++ mount.mountPoint),
  .directive "After" "network-online.target",
  .directive "Wants" "network-online.target",
  .heading "Mount",
  .directive "What" mount.what,
  .directive "Where" mount.mountPoint,
  .directive "Type" mount.fsType,
  .directive "Options" (mount.options ++ ",_netdev,nofail"),
  .heading "Install",
  .directive "WantedBy" "multi-user.target"]

def Credentials.items (credentials : Credentials) : List Item :=
  credentials.fields.map fun field => .directive field.1.toList field.2

/-- The sections and directives that the file is meant to have. -/
def Config.intended : Config → List Item
  | .sshd accounts => accounts.flatMap fun account => matchBlockItems account.1 account.2
  | .samba encryptionRequired shares => globalItems encryptionRequired ++ shares.flatMap Share.items
  | .mount unit => unit.items
  | .cifs credentials => credentials.items

/-! ### The property -/

def Item.headingName : Item → Option Text
  | .heading name => some name
  | _ => none

/-- What Samba takes for the name of a section: cases are not told apart, a run of blanks is one,
and `globals` is another name of the section `global`, in which blanks do not count. -/
def sectionName (name : Text) : Text :=
  let parts := words (toAsciiLowercase name)
  if parts.flatten = "global".toList ∨ parts.flatten = "globals".toList then "global"
  else unwords parts

/-- What makes two headings open the same section. -/
def Config.headingKey : Config → Text → Text
  | .sshd _ => id
  | .samba _ _ => sectionName
  | .mount _ => id
  | .cifs _ => id

/-- The file is read as it is meant to be, and no section is opened twice. -/
def Config.Exact (config : Config) (out : Text) : Prop :=
  config.read out = config.intended ∧
    (((config.read out).filterMap Item.headingName).map config.headingKey).Nodup

/-- The paths and all of a mount unit are taken as they are written, no account and no section comes
twice, what a mount unit does not check has no line end, and no credential has a zero byte. -/
def Config.Harmless : Config → Prop
  | .sshd accounts =>
    (∀ account ∈ accounts, asWritten sshdSpecial account.2 = true) ∧ (accounts.map Prod.fst).Nodup
  | .samba _ shares =>
    (∀ share ∈ shares, asWritten iniSpecial share.path = true) ∧
      ("global".toList :: shares.map fun share => sectionName share.name).Nodup
  | .mount unit =>
    ∀ value ∈ [unit.what, unit.mountPoint, unit.fsType, unit.options],
      free lineEnds value = true ∧ asWritten iniSpecial value = true
  | .cifs credentials => ∀ field ∈ credentials.fields, '\x00' ∉ field.2

/-! ### Characters -/

variable {special s t : Text} {c : Char}

theorem not_mem_of_free (h : free special s) (hc : c ∈ s) : c ∉ special := by
  simpa using all_eq_true.1 h c hc

theorem free_of_not_mem (h : ∀ c ∈ s, c ∉ special) : free special s :=
  all_eq_true.2 fun c hc => by simpa using h c hc

theorem free_of_all {p : Char → Bool} (h : s.all p) (hspecial : special.any p = false) :
    free special s :=
  free_of_not_mem fun c hc hmem => any_eq_false.1 hspecial c hmem (all_eq_true.1 h c hc)

theorem free_append (hs : free special s) (ht : free special t) : free special (s ++ t) := by
  rw [free, all_append, Bool.and_eq_true]
  exact ⟨hs, ht⟩

theorem asWritten_iff : asWritten special s ↔ trim s = s ∧ free special s := by
  rw [asWritten, Bool.and_eq_true, decide_eq_true_eq]

theorem asWritten_append (hs : ∀ c ∈ s.head?, isWhitespace c = false) (hs' : free special s)
    (ht : asWritten special t) (hne : t ≠ []) : asWritten special (s ++ t) := by
  obtain ⟨htrim, ht'⟩ := asWritten_iff.1 ht
  refine asWritten_iff.2 ⟨?_, free_append hs' ht'⟩
  cases s with
  | nil => exact htrim
  | cons =>
    rw [trim_eq_self_iff, getLast?_append_of_ne_nil _ hne]
    exact ⟨hs, (trim_eq_self_iff.1 htrim).2⟩

/-! ### Lines -/

theorem splitOnP_unlines {ls : List Text} (h : ∀ l ∈ ls, free lineEnds l) :
    (unlines ls).splitOnP lineEnds.contains = ls ++ [[]] := by
  induction ls with
  | nil => rfl
  | cons l ls ih =>
    obtain ⟨hl, hls⟩ := forall_mem_cons.1 h
    have hcontains : ∀ c ∈ l, lineEnds.contains c = false := fun c hc => by
      simpa using not_mem_of_free hl hc
    rw [unlines_cons, splitOnP_append_cons _ _ (by decide), splitOnP_eq_singleton hcontains, ih hls]
    rfl

variable {indent key value : Text}

theorem readIni_append {pad : Text} (hindent : ∀ d ∈ indent, isWhitespace d)
    (hc : isWhitespace c = false) (hstart : c ∉ ['#', ';', '['])
    (hkey : trim (c :: key) = c :: key) (heq : '=' ∉ c :: key)
    (hpad : ∀ d ∈ pad, isWhitespace d) (hvalue : asWritten iniSpecial (trim value)) :
    readIni (indent ++ (c :: key ++ (pad ++ '=' :: value))) =
      some (.directive (c :: key) (trim value)) := by
  have hhead : (trim (indent ++ (c :: key ++ (pad ++ '=' :: value)))).head? = some c := by
    rw [trim_append_left hindent, head?_trim, cons_append, find?_cons_of_pos (by simp [hc])]
  simp only [mem_cons, not_mem_nil, or_false, not_or] at hstart
  have hne : trim (indent ++ (c :: key ++ (pad ++ '=' :: value))) ≠ [] := by
    intro hnil
    rw [hnil] at hhead
    exact nomatch hhead
  rw [readIni]
  simp only [hhead, keyValue_append hindent hc hkey heq hpad value]
  rw [if_neg (not_or.2 ⟨hne, by simp [hstart]⟩), if_neg (by simp [hstart]), map_some, if_pos hvalue]

variable {name : Text}

theorem readIni_heading (hname : trim name = name) :
    readIni ('[' :: (name ++ [']'])) = some (.heading name) := by
  have htrim : trim ('[' :: (name ++ [']'])) = '[' :: (name ++ [']']) := by
    rw [trim_eq_self_iff]
    constructor
    · rintro c hc
      cases hc
      rfl
    · intro c hc
      rw [← cons_append, getLast?_concat] at hc
      cases hc
      rfl
  have hlast : ('[' :: (name ++ [']'])).getLast? = some ']' := by
    rw [← cons_append, getLast?_concat]
  rw [readIni]
  simp only [htrim, hlast]
  simp [hname]

theorem readSshd_append (hindent : ∀ d ∈ indent, isWhitespace d) (hkey : IsWord key)
    (hhash : key.head? ≠ some '#') (hvalue : trim value = value) :
    readSshd (indent ++ (key ++ ' ' :: value)) =
      if key = "Match" then some (.heading value)
      else some (if asWritten sshdSpecial value then .directive key value
        else .other (indent ++ (key ++ ' ' :: value))) := by
  obtain ⟨hne, hwords⟩ := hkey
  obtain ⟨c, key, rfl⟩ := exists_cons_of_ne_nil hne
  -- the rest of the trimmed line is empty or begins with the space
  obtain ⟨rest, hrest⟩ : ∃ rest, (' ' :: value).rdropWhile isWhitespace = rest := ⟨_, rfl⟩
  have htrim : trim (indent ++ (c :: key ++ ' ' :: value)) = c :: key ++ rest := by
    rw [trim_append_left hindent, cons_append, trim_cons (hwords c mem_cons_self),
      rdropWhile_append_of_forall fun d hd => hwords d (mem_cons_of_mem _ hd), hrest]
    rfl
  have hspace : rest.takeWhile (!isWhitespace ·) = [] ∧
      rest.dropWhile (!isWhitespace ·) = rest := by
    have hprefix := rdropWhile_prefix isWhitespace (' ' :: value)
    rw [hrest] at hprefix
    cases rest with
    | nil => exact ⟨rfl, rfl⟩
    | cons =>
      obtain rfl := (cons_prefix_cons.1 hprefix).1
      exact ⟨rfl, rfl⟩
  have hword : ∀ d ∈ c :: key, (!isWhitespace d) := fun d hd => by simp [hwords d hd]
  have hvalue' : trim rest = value := by
    rw [← hrest, trim_rdropWhile, trim_cons_of_isWhitespace rfl, hvalue]
  rw [readSshd]
  simp only [htrim]
  rw [if_neg (by simpa using hhash), takeWhile_append_of_pos hword,
    dropWhile_append_of_pos hword, hspace.1, hspace.2, append_nil, hvalue']

variable {read : Text → Option Item}

/-- The lines have no line ends in them, and the items are what is read of them. -/
structure Reading (read : Text → Option Item) (ls : List Text) (items : List Item) : Prop where
  unbroken : ∀ l ∈ ls, free lineEnds l = true
  items : ls.filterMap read = items

variable {line : Text} {ls ls' : List Text} {item : Item} {items items' : List Item}

theorem Reading.skip (hline : read line = none) (hbreak : free lineEnds line)
    (h : Reading read ls items) : Reading read (line :: ls) items :=
  ⟨forall_mem_cons.2 ⟨hbreak, h.unbroken⟩, (filterMap_cons_none hline).trans h.items⟩

theorem Reading.cons (hline : read line = some item) (hbreak : free lineEnds line)
    (h : Reading read ls items) : Reading read (line :: ls) (item :: items) :=
  ⟨forall_mem_cons.2 ⟨hbreak, h.unbroken⟩, (filterMap_cons_some hline).trans (congrArg _ h.items)⟩

theorem Reading.append (h : Reading read ls items) (h' : Reading read ls' items') :
    Reading read (ls ++ ls') (items ++ items') :=
  ⟨forall_mem_append.2 ⟨h.unbroken, h'.unbroken⟩, by rw [filterMap_append, h.items, h'.items]⟩

theorem Reading.flatMap {α : Type*} {xs : List α} {f : α → List Text} {g : α → List Item}
    (h : ∀ x ∈ xs, Reading read (f x) (g x)) : Reading read (xs.flatMap f) (xs.flatMap g) := by
  constructor
  · intro l hl
    obtain ⟨x, hx, hl⟩ := mem_flatMap.1 hl
    exact (h x hx).unbroken l hl
  · rw [filterMap_flatMap]
    exact flatMap_congr fun x hx => (h x hx).items

theorem Reading.filterMap_unlines (h : Reading read ls items) (hnil : read [] = none) :
    ((unlines ls).splitOnP lineEnds.contains).filterMap read = items := by
  rw [splitOnP_unlines h.unbroken, filterMap_append, h.items, filterMap_cons_none hnil]
  exact append_nil items

/-! ### What is read of each kind of file -/

theorem unbroken_of_isValidAbsolutePath {path : Text} (h : isValidAbsolutePath path) :
    free lineEnds path := by
  simp only [isValidAbsolutePath, Bool.and_eq_true] at h
  exact free_of_all h.2 rfl

variable {username chrootDir : Text}

private theorem readSshd_match (h : isValidAccountName username) :
    readSshd ("Match User " ++ username) = some (.heading ("User " ++ username)) := by
  obtain ⟨hne, hgraphic⟩ := graphic_of_isValidAccountName h
  have hkey : IsWord "Match" := by decide
  exact readSshd_append (forall_mem_nil _) hkey (by decide) (hgraphic.trim_append hne rfl)

private theorem readSshd_chrootDirectory (h : asWritten sshdSpecial chrootDir) :
    readSshd ("    ChrootDirectory " ++ chrootDir) =
      some (.directive "ChrootDirectory" chrootDir) := by
  have hkey : IsWord "ChrootDirectory" := by decide
  have hread := readSshd_append (all_eq_true.1 (show "    ".toList.all isWhitespace from rfl)) hkey
    (by decide) (asWritten_iff.1 h).1
  rwa [if_neg (by decide), if_pos h] at hread

theorem reading_matchBlock (hname : isValidAccountName username)
    (hdir : isValidAbsolutePath chrootDir) (hplain : asWritten sshdSpecial chrootDir) :
    Reading readSshd (matchBlockLines username chrootDir) (matchBlockItems username chrootDir) := by
  have hgraphic := (graphic_of_isValidAccountName hname).2
  exact .skip rfl rfl (.cons (readSshd_match hname)
    (free_append rfl (free_of_all (all_eq_true.2 hgraphic) rfl))
    (.cons (readSshd_chrootDirectory hplain)
      (free_append rfl (unbroken_of_isValidAbsolutePath hdir)) ⟨by decide, rfl⟩))

def IniKey (key : Text) : Prop :=
  key ≠ [] ∧ (∀ c ∈ key.head?, c ∉ ['#', ';', '[']) ∧ trim key = key ∧ '=' ∉ key

instance (key : Text) : Decidable (IniKey key) :=
  @instDecidableAnd _ _ _ (@instDecidableAnd _ _ (decidableForallMem _) inferInstance)

theorem Reading.assigned (indent pad pad' key : Text)
    (hblank : (indent ++ (pad ++ pad')).all (· = ' ')) (hkey : IniKey key)
    (hbreak : free lineEnds key) (hvalue : free lineEnds value ∧ asWritten iniSpecial value)
    (h : Reading readIni ls items) :
    Reading readIni ((indent ++ (key ++ (pad ++ '=' :: (pad' ++ value)))) :: ls)
      (.directive key value :: items) := by
  obtain ⟨hne, hstart, htrim, heq⟩ := hkey
  obtain ⟨hindent, hpad, hpad'⟩ : (indent.all (· = ' ')) ∧ (pad.all (· = ' ')) ∧
      pad'.all (· = ' ') := by
    simpa only [all_append, Bool.and_eq_true] using hblank
  have hspaces : ∀ {s : Text}, s.all (· = ' ') → ∀ c ∈ s, isWhitespace c := fun h c hc =>
    of_decide_eq_true (all_eq_true.1 h c hc) ▸ rfl
  refine .cons ?_ (free_append (free_of_all hindent rfl) (free_append hbreak (free_append
    (free_of_all hpad rfl) (free_append (s := ['=']) rfl (free_append (free_of_all hpad' rfl)
      hvalue.1))))) h
  obtain ⟨c, key, rfl⟩ := exists_cons_of_ne_nil hne
  have hvalue' : trim (pad' ++ value) = value :=
    (trim_append_left (hspaces hpad') _).trans (asWritten_iff.1 hvalue.2).1
  have hread := readIni_append (hspaces hindent) ((trim_eq_self_iff.1 htrim).1 c rfl)
    (hstart c rfl) htrim heq (hspaces hpad) (hvalue'.symm ▸ hvalue.2)
  rwa [hvalue'] at hread

theorem trim_of_isConfigSafe (h : isConfigSafe name) : trim name = name := by
  simp only [isConfigSafe, Bool.and_eq_true, decide_eq_true_eq] at h
  obtain ⟨⟨⟨-, hchars⟩, hhead⟩, hlast⟩ := h
  have hword : ∀ c ∈ name, c ≠ ' ' → isWhitespace c = false := by
    intro c hc hspace
    rcases mem_or_of_alphanumericOr hchars c hc with halpha | hother
    · exact isWhitespace_of_isAsciiGraphic (isAsciiGraphic_of_isAsciiAlphanumeric halpha)
    · simp only [mem_cons, not_mem_nil, or_false] at hother
      rcases hother with rfl | rfl | rfl | rfl
      all_goals first | rfl | exact absurd rfl hspace
  rw [trim_eq_self_iff]
  constructor
  · rintro c hc
    exact hword c (mem_of_head? hc) (by rintro rfl; exact hhead hc)
  · rintro c hc
    exact hword c (mem_of_getLast? hc) (by rintro rfl; exact hlast hc)

private theorem alphanumericOr_unwords {others : Text} {ws : List Text}
    (h : ∀ w ∈ ws, alphanumericOr others w) : alphanumericOr (' ' :: others) (unwords ws) := by
  induction ws with
  | nil => rfl
  | cons w ws ih =>
    obtain ⟨hw, hws⟩ := forall_mem_cons.1 h
    have hw' : alphanumericOr (' ' :: others) w := all_eq_true.2 fun c hc => by
      simpa using (mem_or_of_alphanumericOr hw c hc).imp_right .inr
    cases ws with
    | nil => rwa [unwords, intercalate_singleton]
    | cons =>
      rw [unwords, intercalate_cons_cons, alphanumericOr, all_append, all_append, Bool.and_eq_true,
        Bool.and_eq_true]
      exact ⟨⟨hw', by simp⟩, ih hws⟩

variable {share : Share}

theorem reading_share (hname : isConfigSafe share.name) (hpath : isValidAbsolutePath share.path)
    (husers : ∀ user ∈ share.validUsers, isValidAccountName user)
    (hplain : asWritten iniSpecial share.path) : Reading readIni share.lines share.items := by
  have hgraphic := fun user huser => graphic_of_isValidAccountName (husers user huser)
  have hchars := alphanumericOr_unwords fun user huser =>
    (alphanumericOr_of_isValidAccountName (husers user huser)).2
  have hwords : asWritten iniSpecial (unwords share.validUsers) :=
    asWritten_iff.2 ⟨trim_unwords fun user huser =>
      (hgraphic user huser).2.isWord (hgraphic user huser).1, free_of_all hchars rfl⟩
  have hchars' := hname
  simp only [isConfigSafe, Bool.and_eq_true] at hchars'
  have hbracket : free lineEnds ('[' :: (share.name ++ [']'])) :=
    free_append (s := ['[']) rfl (free_append (free_of_all hchars'.1.1.2 rfl) rfl)
  refine .skip rfl rfl (.cons (readIni_heading (trim_of_isConfigSafe hname)) hbracket
    (.assigned "    " " " " " "path" rfl (by decide) rfl
      ⟨unbroken_of_isValidAbsolutePath hpath, hplain⟩
      (.assigned "    " " " " " "valid users" rfl (by decide) rfl
        ⟨free_of_all hchars rfl, hwords⟩ ?_)))
  cases share.readOnly
  · exact ⟨by decide, rfl⟩
  · exact ⟨by decide, rfl⟩

theorem reading_global (encryptionRequired : Bool) :
    Reading readIni (globalLines encryptionRequired) (globalItems encryptionRequired) := by
  cases encryptionRequired
  · exact ⟨by decide, rfl⟩
  · exact ⟨by decide, rfl⟩

open Config

theorem reading_mount {unit : Mount} (hpoint : isValidAbsolutePath unit.mountPoint)
    (h : (mount unit).Harmless) : Reading readIni unit.lines unit.items := by
  have hwhere := h unit.mountPoint (by simp)
  have hoptions := h unit.options (by simp)
  have hdescription : asWritten iniSpecial ("Sepulchre-managed mount for " ++ unit.mountPoint) := by
    refine asWritten_append (fun c hc => some.inj hc ▸ rfl) rfl hwhere.2 ?_
    intro hnil
    rw [hnil] at hpoint
    cases hpoint
  have hall : asWritten iniSpecial (unit.options ++ ",_netdev,nofail") :=
    asWritten_append (trim_eq_self_iff.1 (asWritten_iff.1 hoptions.2).1).1
      (asWritten_iff.1 hoptions.2).2 rfl (by decide)
  refine .cons rfl rfl (.assigned [] [] [] "Description" rfl (by decide) rfl
    ⟨free_append rfl hwhere.1, hdescription⟩ ?_)
  refine .cons rfl rfl (.cons rfl rfl (.skip rfl rfl (.cons rfl rfl ?_)))
  exact .assigned [] [] [] "What" rfl (by decide) rfl (h unit.what (by simp))
    (.assigned [] [] [] "Where" rfl (by decide) rfl hwhere
    (.assigned [] [] [] "Type" rfl (by decide) rfl (h unit.fsType (by simp))
    (.assigned [] [] [] "Options" rfl (by decide) rfl ⟨free_append hoptions.1 rfl, hall⟩
      ⟨by decide, rfl⟩)))

variable {credentials : Credentials}

private theorem mem_fields {field : String × Text} (h : field ∈ credentials.fields) :
    free lineEnds field.1.toList ∧ '=' ∉ field.1.toList := by
  have hkey : field.1 ∈ ["username", "password", "domain"] := by
    rcases mem_append.1 h with h | h
    · rcases mem_pair.1 h with rfl | rfl
      · simp
      · simp
    · obtain ⟨domain, -, rfl⟩ := mem_map.1 h
      simp
  exact (show ∀ key ∈ ["username", "password", "domain"],
    free lineEnds key.toList ∧ '=' ∉ key.toList by decide) _ hkey

private theorem reading_credentials (h : ∀ field ∈ credentials.fields, free lineEnds field.2) :
    Reading readCredential credentials.lines credentials.items := by
  constructor
  · intro l hl
    obtain ⟨field, hfield, rfl⟩ := mem_map.1 hl
    exact free_append (mem_fields hfield).1 (free_append (s := ['=']) rfl (h field hfield))
  · rw [Credentials.lines, Credentials.items, filterMap_map, ← filterMap_eq_map]
    refine filterMap_congr fun field hfield => ?_
    rw [Function.comp_apply, readCredential, splitOnce_append_cons (mem_fields hfield).2]
    rfl

variable {config : Config}

/-! ### Exact files -/

theorem read_of_harmless (hvalid : config.Valid) (h : config.Harmless) :
    config.read (unlines config.lines) = config.intended := by
  cases config with
  | sshd accounts =>
    have hblocks : Reading readSshd _ (sshd accounts).intended := .flatMap fun account haccount =>
      reading_matchBlock (hvalid account haccount).1 (hvalid account haccount).2
        (h.1 account haccount)
    exact (hblocks.skip rfl rfl).filterMap_unlines rfl
  | samba encryptionRequired =>
    have hshares := Reading.flatMap fun share hshare =>
      reading_share (hvalid share hshare).1 (hvalid share hshare).2.1 (hvalid share hshare).2.2
        (h.1 share hshare)
    exact ((reading_global encryptionRequired).append hshares).filterMap_unlines rfl
  | mount => exact (reading_mount hvalid h).filterMap_unlines rfl
  | cifs credentials =>
    refine (reading_credentials fun field hfield => free_of_not_mem fun c hc hmem =>
      ?_).filterMap_unlines rfl
    obtain ⟨hfeed, hreturn⟩ := hvalid field hfield
    simp only [lineEnds, mem_cons, not_mem_nil, or_false] at hmem
    rcases hmem with rfl | rfl | rfl
    exacts [hfeed hc, hreturn hc, h field hfield hc]

private theorem nodup_headings (h : config.Harmless) :
    ((config.intended.filterMap Item.headingName).map config.headingKey).Nodup := by
  cases config with
  | sshd accounts =>
    have hnames : (sshd accounts).intended.filterMap Item.headingName =
        (accounts.map Prod.fst).map ("User ".toList ++ ·) := by
      rw [intended, filterMap_flatMap, List.map_map, map_eq_flatMap]
      rfl
    rw [hnames, headingKey, List.map_id]
    exact Nodup.map (append_right_injective _) h.2
  | samba encryptionRequired shares =>
    have hnames : (samba encryptionRequired shares).intended.filterMap Item.headingName =
        "global".toList :: shares.map Share.name := by
      rw [intended, filterMap_append, filterMap_flatMap, map_eq_flatMap]
      rfl
    rw [hnames, map_cons, List.map_map]
    exact h.2
  | mount => exact (show ["Unit".toList, "Mount".toList, "Install".toList].Nodup by decide)
  | cifs credentials =>
    have hnone : credentials.items.filterMap Item.headingName = [] := by
      rw [Credentials.items, filterMap_map]
      exact filterMap_eq_nil_iff.2 fun _ _ => rfl
    rw [intended, hnone]
    exact nodup_nil

def backupsMount : Mount := ⟨"//host/share", "/mnt/backups", "cifs", "ro"⟩

/-- A unit with a line of its own behind the options, which replaces what is mounted. -/
def injectingMount : Mount :=
  ⟨"//host/share", "/mnt/backups", "cifs", "ro\nWhat=/dev/sda1\nOptions=rw"⟩

/-- A share that opens the section with the managed settings again. -/
def globalShare : Share := ⟨"global", "/srv/smb/backups", ["backup"], true⟩

end Abyssal.Sepulchre
