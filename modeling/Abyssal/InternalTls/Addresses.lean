import Abyssal.Net.AddressText
import Abyssal.Text.Layout
import Abyssal.Check.Ensure

/-!
# The addresses of the control plane

The control plane is reached at internet addresses and host names. An administrator writes
them as one text, and a certificate authority has them as the texts of its name constraints.
An address that was accepted once is accepted again from its own text, and is the same then.
-/

namespace Abyssal.InternalTls

open Net Text

inductive Address
  | ip (addr : IpAddr)
  | dns (name : Text)
  deriving DecidableEq

def Address.display : Address → Text
  | .ip addr => addr.display
  | .dns name => name

/-- Why a text is not an address, or not a list of addresses. -/
inductive AddressError
  | notAHostname (input : Text)
  | notAnIp (input : Text)
  | noAddress
  | tooManyAddresses

def validLabel (label : Text) : Bool :=
  !label.isEmpty && byteLength label ≤ 63 &&
    label.all (fun c => isAsciiAlphanumeric c || c = '-') &&
    label.head? ≠ some '-' && label.getLast? ≠ some '-'

def Address.parse (input : Text) : Except AddressError Address :=
  let input := (trim input).rdropWhile (· = '.')
  match IpAddr.parse input with
  | some addr => .ok (.ip addr)
  | none =>
    let name := toAsciiLowercase input
    if name.isEmpty || 253 < byteLength name || !(splitOn '.' name).all validLabel then
      .error (.notAHostname input)
    -- an all-numeric name that is not an address is taken for a mistyped address
    else if (splitOn '.' name).all (fun label => label.all isAsciiDigit) then
      .error (.notAnIp input)
    else .ok (.dns name)

def maxAddresses : ℕ := 8

/-- The loop of `parse_addresses`, with the addresses found so far. -/
def collectAddresses (out : List Address) :
    List Text → Except AddressError (List Address)
  | [] => .ok out
  | part :: parts => do
    let address ← Address.parse part
    collectAddresses (if out.contains address then out else out ++ [address]) parts

def parseAddresses (input : Text) : Except AddressError (List Address) := do
  let parts := (input.splitOnP fun c => c = ',' || isWhitespace c).filter (!·.isEmpty)
  let out ← collectAddresses [] parts
  ensure (out ≠ []) .noAddress
  ensure (out.length ≤ maxAddresses) .tooManyAddresses
  return out

/-! ### Host names -/

structure IsHostName (name : Text) : Prop where
  ne_nil : name ≠ []
  byteLength_le : byteLength name ≤ 253
  labels : (splitOn '.' name).all validLabel = true
  lower : toAsciiLowercase name = name
  not_numeric : (splitOn '.' name).all (fun label => label.all isAsciiDigit) = false

def isHostNameChar (c : Char) : Bool := isAsciiAlphanumeric c || c = '-' || c = '.'

variable {c : Char}

theorem isAsciiGraphic_of_isHostNameChar (h : isHostNameChar c) : isAsciiGraphic c := by
  simp only [isHostNameChar, Bool.or_eq_true, decide_eq_true_eq] at h
  rcases h with (h | rfl) | rfl
  · exact isAsciiGraphic_of_isAsciiAlphanumeric h
  · rfl
  · rfl

variable {name : Text}

theorem IsHostName.forall_mem (h : IsHostName name) : ∀ c ∈ name, isHostNameChar c := by
  intro c hc
  rcases mem_splitOn '.' hc with rfl | ⟨label, hlabel, hmem⟩
  · rfl
  · have hvalid := List.all_eq_true.1 h.labels label hlabel
    simp only [validLabel, Bool.and_eq_true, List.all_eq_true] at hvalid
    simp only [isHostNameChar, Bool.or_eq_true] at hvalid ⊢
    exact .inl (hvalid.1.1.2 c hmem)

theorem IsHostName.rdropWhile (h : IsHostName name) : name.rdropWhile (· = '.') = name := by
  rw [List.rdropWhile_eq_self_iff]
  intro hne hlast
  have hnil : [] ∈ splitOn '.' name := by
    rw [← List.dropLast_append_getLast hne, of_decide_eq_true hlast, splitOn_append_sep]
    exact List.mem_append_right _ List.mem_cons_self
  cases List.all_eq_true.1 h.labels [] hnil

private theorem isAsciiDigit_of_toDigit (h : toDigit 10 c ≠ none) : isAsciiDigit c := by
  have h0 : ('0' : Char).toNat = 48 := rfl
  have h9 : ('9' : Char).toNat = 57 := rfl
  simp only [isAsciiDigit, Bool.and_eq_true, decide_eq_true_eq, Char.le_def,
    UInt32.le_iff_toNat_le, Char.toNat_val]
  by_contra hc
  refine h ?_
  simp only [toDigit]
  split_ifs <;> first | rfl | omega

theorem IsHostName.parse_ip (h : IsHostName name) : IpAddr.parse name = none := by
  cases hparse : IpAddr.parse name with
  | none => rfl
  | some =>
    exfalso
    rcases colon_mem_or_of_parse hparse with hcolon | hdigits
    · cases h.forall_mem ':' hcolon
    · have hall : (splitOn '.' name).all (fun label => label.all isAsciiDigit) := by
        simp only [List.all_eq_true]
        intro label hlabel c hc
        rcases hdigits c ((of_mem_splitOn hlabel).2 hc) with hdigit | rfl
        · exact isAsciiDigit_of_toDigit hdigit
        · exact absurd hc (of_mem_splitOn hlabel).1
      rw [h.not_numeric] at hall
      cases hall

/-! ### Reading an address back -/

def Address.Canonical : Address → Prop
  | .ip _ => True
  | .dns name => IsHostName name

variable {a : Address}

theorem Address.Canonical.forall_mem (h : a.Canonical) :
    ∀ c ∈ a.display, isAsciiGraphic c ∧ c ≠ '/' := by
  intro c hc
  cases a with
  | ip addr =>
    have hchar := addr.forall_mem_display c hc
    refine ⟨isAsciiGraphic_of_isAddressChar hchar, ?_⟩
    rintro rfl
    cases hchar
  | dns =>
    have hchar := IsHostName.forall_mem h c hc
    refine ⟨isAsciiGraphic_of_isHostNameChar hchar, ?_⟩
    rintro rfl
    cases hchar

theorem IpAddr.rdropWhile_display (addr : IpAddr) :
    addr.display.rdropWhile (· = '.') = addr.display := by
  rw [List.rdropWhile_eq_self_iff]
  intro hne hlast
  exact addr.getLast?_display (List.getLast?_eq_some_getLast hne) (of_decide_eq_true hlast)

theorem Address.Canonical.parse_display (h : a.Canonical) : Address.parse a.display = .ok a := by
  have htrim : trim a.display = a.display :=
    trim_of_forall fun c hc => isWhitespace_of_isAsciiGraphic (h.forall_mem c hc).1
  cases a with
  | ip addr =>
    rw [Address.parse, htrim, display, IpAddr.rdropWhile_display, addr.parse_display]
  | dns name =>
    have hname : IsHostName name := h
    have hvalid : (name.isEmpty || decide (253 < byteLength name) ||
        !(splitOn '.' name).all validLabel) = false := by
      rw [hname.labels, List.isEmpty_eq_false_iff.2 hname.ne_nil,
        decide_eq_false (Nat.not_lt.2 hname.byteLength_le)]
      rfl
    rw [Address.parse, htrim, display, hname.rdropWhile, hname.parse_ip]
    dsimp only
    rw [hname.lower, hvalid, hname.not_numeric]
    rfl

theorem Address.canonical_of_parse {s : Text} (h : Address.parse s = .ok a) : a.Canonical := by
  rw [Address.parse] at h
  dsimp only at h
  generalize (trim s).rdropWhile (· = '.') = input at h
  cases hip : IpAddr.parse input with
  | some =>
    rw [hip] at h
    cases h
    exact trivial
  | none =>
    rw [hip] at h
    dsimp only at h
    split_ifs at h with hvalid hnumeric
    cases h
    simp only [Bool.or_eq_true, not_or, Bool.not_eq_true, List.isEmpty_eq_false_iff,
      decide_eq_false_iff_not, Nat.not_lt, Bool.not_eq_false'] at hvalid
    exact ⟨hvalid.1.1, hvalid.1.2, hvalid.2, toAsciiLowercase_toAsciiLowercase input,
      Bool.eq_false_iff.2 hnumeric⟩

private theorem canonical_of_collectAddresses {parts : List Text} :
    ∀ {out as : List Address}, (∀ a ∈ out, a.Canonical) →
      collectAddresses out parts = .ok as → ∀ a ∈ as, a.Canonical := by
  induction parts with
  | nil =>
    intro out as hout h
    cases h
    exact hout
  | cons _ _ ih =>
    intro out as hout h
    obtain ⟨_, ha, hrest⟩ := bind_eq_ok.1 h
    refine ih ?_ hrest
    split_ifs
    · exact hout
    · intro b hb
      rcases List.mem_append.1 hb with hb | hb
      · exact hout b hb
      · rw [List.mem_singleton.1 hb]
        exact Address.canonical_of_parse ha

theorem canonical_of_parseAddresses {input : Text} {as : List Address}
    (h : parseAddresses input = .ok as) : as ≠ [] ∧ ∀ a ∈ as, a.Canonical := by
  rw [parseAddresses] at h
  obtain ⟨_, hout, hrest⟩ := bind_eq_ok.1 h
  obtain ⟨hne, hrest⟩ := ensure_bind_eq_ok.1 hrest
  obtain ⟨-, hrest⟩ := ensure_bind_eq_ok.1 hrest
  cases hrest
  exact ⟨hne, canonical_of_collectAddresses (List.forall_mem_nil _) hout⟩

end Abyssal.InternalTls
