import Abyssal.Agent.Validators
import Mathlib.Data.List.Infix

/-!
# Quarantined files

A quarantined file is moved to a directory of the agent, under a name made of the time and of the
path it came from, percent-encoded. A restore reads the path back from the name. The encoding keeps
dots, but no two dots may stand together in a name.

## Main results

* `restores_iff_noDots`: the files that can be restored.
-/

namespace Abyssal.Agent.Quarantine

open Text List

/-! ### Names of files -/

def isUnreserved (byte : UInt8) : Bool :=
  let c := Char.ofNat byte.toNat
  isAsciiAlphanumeric c || c = '-' || c = '_' || c = '.' || c = '~'

def hexDigit (n : ℕ) : Char := "0123456789ABCDEF".toList.getD n '0'

def encodeByte (byte : UInt8) : Text :=
  if isUnreserved byte then [Char.ofNat byte.toNat]
  else ['%', hexDigit (byte.toNat / 16), hexDigit (byte.toNat % 16)]

def percentEncode (input : Text) : Text :=
  (input.flatMap String.utf8EncodeChar).flatMap encodeByte

def malformed : String := "malformed percent-encoding in quarantine filename"

def hexValue (byte : UInt8) : Option ℕ :=
  let n := byte.toNat
  if 48 ≤ n ∧ n ≤ 57 then some (n - 48)
  else if 65 ≤ n ∧ n ≤ 70 then some (n - 55)
  else if 97 ≤ n ∧ n ≤ 102 then some (n - 87)
  else none

/-- `u8::from_str_radix` for two bytes. A plus sign may stand before a digit. -/
def hexPair (high low : UInt8) : Option UInt8 := do
  let low ← hexValue low
  if high = 43 then return UInt8.ofNat low
  return UInt8.ofNat (16 * (← hexValue high) + low)

/-- The loop of `percent_decode`. -/
def decodeBytes : List UInt8 → Option (List UInt8)
  | [] => some []
  | byte :: rest =>
    if byte = 37 then
      match rest with
      | high :: low :: rest =>
        match hexPair high low with
        | some value => (decodeBytes rest).map (value :: ·)
        | none => none
      | _ => none
    else (decodeBytes rest).map (byte :: ·)

def percentDecode (input : Text) : Except String Text :=
  match decodeBytes (input.flatMap String.utf8EncodeChar) with
  | none => .error malformed
  | some bytes =>
    match bytes.toByteArray.utf8Decode? with
    | none => .error (malformed ++ " (invalid utf-8)")
    | some text => .ok text.toList

def hexByte (n : ℕ) : UInt8 := UInt8.ofNat (hexDigit n).toNat

theorem forall_byte {P : UInt8 → Prop} (h : ∀ n : Fin 256, P (UInt8.ofFin n)) (byte : UInt8) :
    P byte :=
  h byte.toFin

private theorem utf8_encodeByte (byte : UInt8) :
    (byte ≠ 37 ∧ (encodeByte byte).flatMap String.utf8EncodeChar = [byte]) ∨
      (encodeByte byte).flatMap String.utf8EncodeChar =
          [37, hexByte (byte.toNat / 16), hexByte (byte.toNat % 16)] ∧
        hexPair (hexByte (byte.toNat / 16)) (hexByte (byte.toNat % 16)) = some byte := by
  revert byte
  exact forall_byte (by decide +kernel)

private theorem decodeBytes_encodeByte (byte : UInt8) (rest : List UInt8) :
    decodeBytes ((encodeByte byte).flatMap String.utf8EncodeChar ++ rest) =
      (decodeBytes rest).map (byte :: ·) := by
  rcases utf8_encodeByte byte with ⟨hne, heq⟩ | ⟨heq, hpair⟩
  · rw [heq]
    -- The function splits on what follows before it looks at the byte.
    match rest with
    | [] => simp [decodeBytes, hne]
    | [_] => simp [decodeBytes, hne]
    | _ :: _ :: _ => simp [decodeBytes, hne]
  · rw [heq]
    simp [decodeBytes, hpair]

theorem percentDecode_percentEncode (path : Text) :
    percentDecode (percentEncode path) = .ok path := by
  have hbytes (bytes : List UInt8) :
      decodeBytes ((bytes.flatMap encodeByte).flatMap String.utf8EncodeChar) = some bytes := by
    induction bytes with
    | nil => rfl
    | cons _ _ ih =>
      rw [flatMap_cons, flatMap_append, decodeBytes_encodeByte, ih, Option.map_some]
  rw [percentDecode, percentEncode, hbytes]
  have hpath : (path.flatMap String.utf8EncodeChar).toByteArray.utf8Decode? = some path.toArray :=
    utf8Decode?_utf8Encode
  simp [hpath]

/-! ### Moving files -/

inductive Platform where
  | unix
  | windows

def isValidWindowsAbsolutePath (path : Text) : Bool :=
  match path with
  | drive :: ':' :: '\\' :: _ =>
    (isAsciiUppercase drive || isAsciiLowercase drive) && byteLength path ≤ 4096 &&
      !(path.splitOnP fun c => c = '\\' || c = '/').any (· = ['.', '.']) &&
      path.all (!isControl ·)
  | _ => false

def isValidPath : Platform → Text → Bool
  | .unix => isValidAbsolutePath
  | .windows => isValidWindowsAbsolutePath

def isValidQuarantineFilename (filename : Text) : Bool :=
  filename ≠ [] && byteLength filename ≤ 4096 && !filename.contains '/' &&
    !filename.contains '\\' && ¬['.', '.'] <:+: filename && filename.all (!isControl ·)

def quarantineFilename (timestamp : ℕ) (path : Text) : Text :=
  ofNat timestamp ++ '_' :: '_' :: percentEncode path

/-- The name under which `quarantine_file` moves a file to the directory. -/
def quarantineFile (platform : Platform) (timestamp : ℕ) (path : Text) : Except String Text :=
  if isValidPath platform path then .ok (quarantineFilename timestamp path)
  else .error ("refusing invalid path: " ++ String.ofList path)

/-- The path to which `restore_quarantined_file` moves a file from the directory. -/
def restoreQuarantinedFile (platform : Platform) (filename : Text) : Except String Text := do
  if isValidQuarantineFilename filename = false then
    throw ("refusing invalid quarantine filename: " ++ String.ofList filename)
  match splitAtText ['_', '_'] filename with
  | none => throw ("malformed quarantine filename: " ++ String.ofList filename)
  | some (_, encodedPath) =>
    let originalPath ← percentDecode encodedPath
    if isValidPath platform originalPath then return originalPath
    throw ("decoded restore path looks invalid: " ++ String.ofList originalPath)

/-- The file that `delete_quarantined_file` deletes from the directory. -/
def deleteQuarantinedFile (filename : Text) (shredPasses : ℕ) : Except String Text :=
  if isValidQuarantineFilename filename = false then
    .error ("refusing invalid quarantine filename: " ++ String.ofList filename)
  else if 35 < shredPasses then
    .error ("refusing " ++ toString shredPasses ++ " shred passes -- the maximum is 35")
  else .ok filename

/-! ### Two dots -/

theorem dots_append_iff {s t : Text} (h : '.' ∉ s) :
    ['.', '.'] <:+: s ++ t ↔ ['.', '.'] <:+: t := by
  induction s with
  | nil => exact Iff.rfl
  | cons c s ih =>
    rw [mem_cons, not_or] at h
    rw [cons_append, infix_cons_iff, ih h.2, cons_prefix_cons]
    exact or_iff_right fun hdot => h.1 hdot.1

def encodeChar (c : Char) : Text := (String.utf8EncodeChar c).flatMap encodeByte

theorem percentEncode_cons (c : Char) (s : Text) :
    percentEncode (c :: s) = encodeChar c ++ percentEncode s := by
  rw [percentEncode, flatMap_cons, flatMap_append, encodeChar, percentEncode]

theorem dot_not_mem_encodeChar {c : Char} (h : c ≠ '.') : '.' ∉ encodeChar c := by
  have hdot : ∀ byte, '.' ∈ encodeByte byte → byte = 46 := forall_byte (by decide +kernel)
  have hbyte (n : ℕ) : (46 : UInt8) = UInt8.ofNat n ↔ 46 = n % 256 := by
    rw [← UInt8.toNat_inj]
    rfl
  intro hmem
  obtain ⟨byte, hc, hencoded⟩ := mem_flatMap.1 hmem
  rw [hdot byte hencoded] at hc
  have hval : c.val.toNat = 46 := by
    simp only [String.utf8EncodeChar] at hc
    split_ifs at hc
    all_goals
      simp only [mem_cons, not_mem_nil, or_false, hbyte] at hc
      omega
  exact h (Char.ext (UInt32.toNat_inj.1 hval))

private theorem encodeChar_ne_nil (c : Char) : encodeChar c ≠ [] := by
  have hne : ∀ byte, encodeByte byte ≠ [] := forall_byte (by decide +kernel)
  obtain ⟨byte, _, hc⟩ := exists_cons_of_ne_nil (String.utf8EncodeChar_ne_nil (c := c))
  rw [encodeChar, hc]
  exact append_ne_nil_of_left_ne_nil (hne byte) _

theorem dots_percentEncode_iff (path : Text) :
    ['.', '.'] <:+: percentEncode path ↔ ['.', '.'] <:+: path := by
  have hdot : encodeChar '.' = ['.'] := by decide
  have hhead (s : Text) : ['.'] <+: percentEncode s ↔ ['.'] <+: s := by
    cases s with
    | nil => exact Iff.rfl
    | cons c s =>
      rw [percentEncode_cons]
      by_cases hc : c = '.'
      · rw [hc]
        exact iff_of_true (prefix_append _ _) (prefix_append ['.'] s)
      · obtain ⟨_, _, hd⟩ := exists_cons_of_ne_nil (encodeChar_ne_nil c)
        have hne := dot_not_mem_encodeChar hc
        rw [hd, mem_cons, not_or] at hne
        rw [hd, cons_append, cons_prefix_cons, cons_prefix_cons]
        exact iff_of_false (fun h => hne.1 h.1) fun h => hc h.1.symm
  induction path with
  | nil => exact Iff.rfl
  | cons c s ih =>
    rw [percentEncode_cons]
    by_cases hc : c = '.'
    · rw [hc, hdot, singleton_append, infix_cons_iff, infix_cons_iff,
        cons_prefix_cons, cons_prefix_cons, hhead]
      exact or_congr_right ih
    · rw [dots_append_iff (dot_not_mem_encodeChar hc)]
      exact ih.trans (dots_append_iff (s := [c]) (by simpa using Ne.symm hc)).symm

/-! ### Restoring -/

variable {platform : Platform} {path : Text} {timestamp : ℕ}

theorem graphic_of_mem_quarantineFilename {c : Char} (h : c ∈ quarantineFilename timestamp path) :
    isAsciiGraphic c ∧ c ≠ '/' ∧ c ≠ '\\' := by
  simp only [quarantineFilename, mem_append, mem_cons] at h
  rcases h with h | rfl | rfl | h
  · have hdigit := isAsciiDigit_of_mem_ofNat h
    refine ⟨isAsciiGraphic_of_isAsciiAlphanumeric (by simp [isAsciiAlphanumeric, hdigit]), ?_, ?_⟩
    all_goals
      rintro rfl
      cases hdigit
  · decide
  · decide
  · have hall : ∀ byte, (encodeByte byte).all (fun c =>
        isAsciiGraphic c ∧ c ≠ '/' ∧ c ≠ '\\') :=
      forall_byte (by decide +kernel)
    obtain ⟨byte, -, hc⟩ := mem_flatMap.1 h
    exact forall_mem_of_all (hall byte) c hc

private theorem isValidQuarantineFilename_iff :
    isValidQuarantineFilename (quarantineFilename timestamp path) ↔
      ¬['.', '.'] <:+: path ∧ byteLength (quarantineFilename timestamp path) ≤ 4096 := by
  have hdots : ['.', '.'] <:+: quarantineFilename timestamp path ↔ ['.', '.'] <:+: path := by
    rw [quarantineFilename, dots_append_iff, ← dots_percentEncode_iff path]
    · exact dots_append_iff (s := ['_', '_']) (by decide)
    · exact not_mem_ofNat rfl timestamp
  have hne : quarantineFilename timestamp path ≠ [] := by simp [quarantineFilename]
  have hslash : '/' ∉ quarantineFilename timestamp path := fun hmem =>
    (graphic_of_mem_quarantineFilename hmem).2.1 rfl
  have hbackslash : '\\' ∉ quarantineFilename timestamp path := fun hmem =>
    (graphic_of_mem_quarantineFilename hmem).2.2 rfl
  have hcontrol : (quarantineFilename timestamp path).all (!isControl ·) := by
    refine all_eq_true.2 fun c hc => ?_
    rw [isControl_of_isAsciiGraphic (graphic_of_mem_quarantineFilename hc).1]
    rfl
  simp [isValidQuarantineFilename, hne, hslash, hbackslash, hcontrol, hdots, and_comm]

/-- A quarantined file can be restored to its path and deleted unless the path has two dots together
or the name is too long. -/
theorem restores_iff_noDots (timestamp : ℕ) (h : isValidPath platform path) :
    ∃ filename, quarantineFile platform timestamp path = .ok filename ∧
      ((isValidQuarantineFilename filename ∧ restoreQuarantinedFile platform filename = .ok path ∧
          ∀ passes ≤ 35, deleteQuarantinedFile filename passes = .ok filename) ↔
        ¬['.', '.'] <:+: path ∧ byteLength filename ≤ 4096) := by
  refine ⟨_, if_pos h, ?_⟩
  rw [← isValidQuarantineFilename_iff]
  refine ⟨And.left, fun hvalid => ⟨hvalid, ?_, fun passes hpasses => ?_⟩⟩
  · have hsplit : splitAtText ['_', '_'] (quarantineFilename timestamp path) =
        some (ofNat timestamp, percentEncode path) :=
      splitAtText_append (not_mem_ofNat rfl timestamp) ['_'] _
    simp only [restoreQuarantinedFile, hvalid, hsplit, percentDecode_percentEncode]
    exact if_pos h
  · rw [deleteQuarantinedFile, if_neg (by simp [hvalid]), if_neg (by omega)]

theorem restores_iff_noDots_evil :
    isValidPath .unix "/tmp/evil" ∧
      ∃ filename, quarantineFile .unix 7 "/tmp/evil" = .ok filename ∧
        restoreQuarantinedFile .unix filename = .ok "/tmp/evil" := by
  obtain ⟨filename, hname, hiff⟩ := @restores_iff_noDots .unix "/tmp/evil" 7 (by decide)
  obtain rfl : quarantineFilename 7 "/tmp/evil" = filename := Except.ok.inj hname
  exact ⟨by decide, _, hname, (hiff.2 (by decide)).2.1⟩

/-- A file with two dots in its name is quarantined and cannot be restored. -/
theorem not_restores_of_dots :
    ∃ filename, quarantineFile .unix 7 "/tmp/a..b" = .ok filename ∧
      isValidQuarantineFilename filename = false ∧
      restoreQuarantinedFile .unix filename ≠ .ok "/tmp/a..b" :=
  ⟨_, rfl, by decide, nofun⟩

end Abyssal.Agent.Quarantine
