import Abyssal.Gravekeeper.Quoting

/-!
# What Gravekeeper lets through

Domains, account names and attribute names are restricted to ASCII characters. Distinguished names
are checked for their shape and for control characters only, and free text hardly at all: both may
hold typographic quotes.
-/

namespace Abyssal.Gravekeeper

open List Text Bool

/-! ## Validators -/

def isValidHostname (name : Text) : Bool :=
  !name.isEmpty && byteLength name ≤ 253 && (Text.splitOn '.' name).all fun label =>
    !label.isEmpty && byteLength label ≤ 63 &&
      label.all (fun c => isAsciiAlphanumeric c || c = '-') &&
      !(label.head? = some '-') && !(label.getLast? = some '-')

def isUpnChar (c : Char) : Bool :=
  isAsciiAlphanumeric c || c = '.' || c = '_' || c = '-' || c = '+'

def isValidUserPrincipalName (upn : Text) : Bool :=
  match splitOnce '@' upn with
  | none => false
  | some (loc, suffix) =>
    if loc.isEmpty || byteLength loc > 64 || loc.contains '@' ||
        loc.head? = some '.' || loc.getLast? = some '.' then false
    else loc.all isUpnChar && isValidHostname suffix

/-- The text split at the commas that are not escaped, or nothing when it ends in an escape. -/
def splitRdns : Text → Text → Bool → Option (List Text)
  | [], _, true => none
  | [], current, false => some [current]
  | c :: dn, current, true => splitRdns dn (current ++ [c]) false
  | c :: dn, current, false =>
    if c = '\\' then splitRdns dn (current ++ [c]) true
    else if c = ',' then (splitRdns dn [] false).map (current :: ·)
    else splitRdns dn (current ++ [c]) false

def isValidRdn (rdn : Text) : Bool :=
  match splitOnce '=' rdn with
  | none => false
  | some (attr, value) =>
    let attr := trim attr
    !attr.isEmpty && byteLength attr ≤ 32 &&
      attr.all (fun c => isAsciiAlphanumeric c || c = '-') && !(trim value).isEmpty

def isValidLdapDn (dn : Text) : Bool :=
  if dn.isEmpty || byteLength dn > 2048 || dn.any isControl then false
  else
    match splitRdns dn [] false with
    | none => false
    | some rdns => rdns.all isValidRdn

def forbiddenInSam : Text :=
  ['"', '/', '\\', '[', ']', ':', ';', '|', '=', ',', '+', '*', '?', '<', '>', '@']

def isValidSamAccountName (name : Text) : Bool :=
  if name.isEmpty || name.length > 20 then false
  else if name.head? = some ' ' || name.getLast? = some ' ' || name.getLast? = some '.' then false
  else if name.all (fun c => c = '.' || c = ' ') then false
  else name.all fun c => !Text.isControl c && !forbiddenInSam.contains c

def isSamChar (c : Char) : Bool :=
  Text.isAsciiAlphanumeric c || c = '.' || c = '_' || c = '-'

def trimDots (s : Text) : Text :=
  ((s.dropWhile (· = '.')).reverse.dropWhile (· = '.')).reverse

/-- A name made into an account name. The lower case of a text is an argument. -/
def sanitizeSamAccountName (toLowercase : Text → Text) (raw : Text) : Text :=
  trimDots (((toLowercase (Text.trim raw)).filter isSamChar).take 20)

def writableAdUserAttributes : List String :=
  ["givenName", "sn", "initials", "displayName", "description", "mail", "department", "company",
    "title", "manager", "physicalDeliveryOfficeName", "telephoneNumber", "mobile",
    "streetAddress", "l", "st", "postalCode", "co", "employeeID", "employeeNumber"]

def eqIgnoreAsciiCase (a b : Text) : Bool := a.map Char.toLower = b.map Char.toLower

def isWritableAdUserAttribute (attr : Text) : Bool :=
  writableAdUserAttributes.any fun a => eqIgnoreAsciiCase a.toList attr

/-! ## Names have no typographic quotes -/

variable {c : Char}

private theorem isTypographic_eq_false (h : c.toNat < 0x2018) : isTypographic c = false := by
  have hnot : ¬ 0x2018 ≤ c.toNat := Nat.not_le.2 h
  rw [isTypographic, decide_eq_false hnot, Bool.false_and]

theorem isTypographic_of_isAsciiAlphanumeric (h : isAsciiAlphanumeric c) :
    isTypographic c = false := by
  have hle := toNat_le_of_isAsciiAlphanumeric h
  exact isTypographic_eq_false (by omega)

theorem plain_of_isValidHostname {name : Text} (h : isValidHostname name) : Plain name := by
  intro c hc
  simp only [isValidHostname, and_eq_true, all_eq_true, or_eq_true,
    decide_eq_true_eq] at h
  rcases Text.mem_splitOn '.' hc with hdot | ⟨label, hlabel, hmem⟩
  · rw [hdot]
    decide
  · rcases (h.2 label hlabel).1.1.2 c hmem with halnum | rfl
    · exact isTypographic_of_isAsciiAlphanumeric halnum
    · decide

private theorem isTypographic_of_isUpnChar (h : isUpnChar c) : isTypographic c = false := by
  simp only [isUpnChar, or_eq_true, decide_eq_true_eq] at h
  rcases h with (((halnum | rfl) | rfl) | rfl) | rfl
  · exact isTypographic_of_isAsciiAlphanumeric halnum
  · decide
  · decide
  · decide
  · decide

theorem plain_of_isValidUserPrincipalName {upn : Text}
    (h : isValidUserPrincipalName upn) : Plain upn := by
  rw [isValidUserPrincipalName] at h
  split at h
  · cases h
  · next loc suffix hsplit =>
    split_ifs at h
    rw [and_eq_true, all_eq_true] at h
    rw [eq_of_splitOnce hsplit]
    intro c hc
    rcases mem_append.1 hc with hloc | hrest
    · exact isTypographic_of_isUpnChar (h.1 c hloc)
    · rcases mem_cons.1 hrest with rfl | hsuffix
      · decide
      · exact plain_of_isValidHostname h.2 c hsuffix

theorem plain_sanitizeSamAccountName (toLowercase : Text → Text) (raw : Text) :
    Plain (sanitizeSamAccountName toLowercase raw) := by
  intro c hc
  rw [sanitizeSamAccountName, trimDots, mem_reverse] at hc
  have hrev := mem_reverse.1 ((dropWhile_suffix _).subset hc)
  have hmem := take_subset _ _ ((dropWhile_suffix _).subset hrev)
  have hsam := (mem_filter.1 hmem).2
  simp only [isSamChar, or_eq_true, decide_eq_true_eq] at hsam
  rcases hsam with ((halnum | rfl) | rfl) | rfl
  · exact isTypographic_of_isAsciiAlphanumeric halnum
  · decide
  · decide
  · decide

theorem toNat_of_isTypographic (h : isTypographic c) : 0x2018 ≤ c.toNat ∧ c.toNat ≤ 0x201B := by
  simpa only [isTypographic, and_eq_true, decide_eq_true_eq] using h

private theorem toLower_of_isTypographic (h : isTypographic c) : c.toLower = c := by
  have hnat := toNat_of_isTypographic h
  have hZ : ('Z' : Char).toNat = 90 := rfl
  refine dif_neg ?_
  rintro ⟨-, hle⟩
  rw [UInt32.le_iff_toNat_le, Char.toNat_val, Char.toNat_val] at hle
  omega

private theorem plain_writableAdUserAttributes :
    ∀ a ∈ writableAdUserAttributes, Plain (a.toList.map Char.toLower) := by
  decide +kernel

theorem plain_of_isWritableAdUserAttribute {attr : Text}
    (h : isWritableAdUserAttribute attr) : Plain attr := by
  rw [isWritableAdUserAttribute, any_eq_true] at h
  obtain ⟨a, ha, heq⟩ := h
  rw [eqIgnoreAsciiCase, decide_eq_true_eq] at heq
  rw [plain_iff_notMem]
  intro c htyp hc
  -- the quote has no lower case, so it would be in the name on the list
  have hmem : c ∈ a.toList.map Char.toLower := by
    rw [heq, ← toLower_of_isTypographic htyp]
    exact mem_map_of_mem hc
  exact plain_iff_notMem.1 (plain_writableAdUserAttributes a ha) c htyp hmem

private theorem isWhitespace_of_isTypographic (h : isTypographic c) : isWhitespace c = false := by
  have hnat := toNat_of_isTypographic h
  simp only [isWhitespace, or_eq_false_iff, and_eq_false_iff, decide_eq_false_iff_not]
  omega

theorem plain_trim_iff {s : Text} : Plain (trim s) ↔ Plain s := by
  rw [plain_iff_notMem, plain_iff_notMem]
  exact forall₂_congr fun c hc =>
    not_congr (mem_trim_iff (isWhitespace_of_isTypographic hc))

end Abyssal.Gravekeeper
