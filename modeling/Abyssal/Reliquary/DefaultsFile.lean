import Abyssal.Text.Template

/-!
# The defaults file of a backup

A backup hands the account of the database to `mariadb-dump` in an option file of two lines.
Characters that would end a value are taken out of it, and what a reader makes of blanks, quotes
and backslashes is not considered.

## Main results

* `defaultsFile_iff`: the accounts that are read back.
-/

namespace Abyssal.Reliquary.Defaults

open Text List

def escapeIniValue (value : Text) : Text :=
  value.filter fun c => c ≠ '#' ∧ c ≠ ';' ∧ c ≠ '\n'

/-- What `DefaultsExtraFile::write` writes. -/
def contents (username password : Text) : Text :=
  "[client]" ++ '\n' :: ("user" ++ '=' :: escapeIniValue username ++
    '\n' :: ("password" ++ '=' :: escapeIniValue password ++ ['\n']))

/-! ### Reading option files -/

def isSpace (c : Char) : Bool := c = ' ' || (9 ≤ c.toNat && c.toNat ≤ 13)

def trimSpace (s : Text) : Text := (s.dropWhile isSpace).rdropWhile isSpace

/-- A value without the quotes around it. -/
def unquote (value : Text) : Text :=
  if 2 ≤ value.length ∧ value.head? = value.getLast? ∧
      (value.head? = some '"' ∨ value.head? = some '\'') then value.tail.dropLast
  else value

/-- What a backslash and a character stand for. -/
def escaped (c : Char) : Text :=
  if c = 'n' then ['\n'] else if c = 't' then ['\t'] else if c = 'r' then ['\r']
  else if c = 'b' then ['\x08'] else if c = 's' then [' ']
  else if c = '"' ∨ c = '\'' ∨ c = '\\' then [c] else ['\\', c]

def unescape : Text → Text
  | [] => []
  | '\\' :: c :: rest => escaped c ++ unescape rest
  | c :: rest => c :: unescape rest

def readValue (value : Text) : Text := unescape (unquote (trimSpace value))

/-- The option on a line, and its value. -/
def readLine (line : Text) : Option (Text × Text) :=
  let line := (line.dropWhile isSpace).takeWhile (· ≠ '#')
  if line = [] ∨ line.head? = some ';' ∨ line.head? = some '[' ∨ line.head? = some '!' then none
  else
    let (name, value) := (splitOnce '=' line).getD (line, [])
    some (name.rdropWhile isSpace, readValue value)

def readOptions (file : Text) : List (Text × Text) :=
  (Text.splitOn '\n' file).filterMap readLine

/-! ### What is read back -/

/-- A value that is written and read as it is. -/
structure Verbatim (value : Text) : Prop where
  escape : escapeIniValue value = value
  trim : trimSpace value = value
  unquote : unquote value = value
  unescape : unescape value = value

variable {value username password : Text}

theorem not_mem_escapeIniValue (value : Text) :
    '\n' ∉ escapeIniValue value ∧ '#' ∉ escapeIniValue value := by
  simp [escapeIniValue]

private theorem readLine_option (value : Text) {name : Text}
    (hname : name ∈ ["user".toList, "password".toList]) :
    readLine (name ++ '=' :: escapeIniValue value) =
      some (name, readValue (escapeIniValue value)) := by
  have hkeep : (escapeIniValue value).takeWhile (fun c => !decide (c = '#')) =
      escapeIniValue value :=
    takeWhile_eq_self_iff.2 fun c hc => by
      have hne : c ≠ '#' := fun heq => (not_mem_escapeIniValue value).2 (heq ▸ hc)
      simpa using hne
  simp only [mem_cons, not_mem_nil, or_false] at hname
  rcases hname with rfl | rfl
  all_goals simp [readLine, isSpace, splitOnce, rdropWhile, hkeep]

theorem readOptions_contents (username password : Text) :
    readOptions (contents username password) =
      [("user".toList, readValue (escapeIniValue username)),
        ("password", readValue (escapeIniValue password))] := by
  have hclient : (Text.splitOn '\n' "[client]").filterMap readLine = [] := by decide
  have hend : (Text.splitOn '\n' []).filterMap readLine = [] := by decide
  have hline (name value : Text) (hname : name ∈ ["user".toList, "password".toList])
      (hplain : '\n' ∉ name) :
      (Text.splitOn '\n' (name ++ '=' :: escapeIniValue value)).filterMap readLine =
        [(name, readValue (escapeIniValue value))] := by
    rw [splitOn_of_not_mem (by simp [hplain, not_mem_escapeIniValue]), filterMap_cons,
      readLine_option value hname, filterMap_nil]
  unfold readOptions contents
  simp only [splitOn_append_sep, filterMap_append, hclient, hend,
    hline "user" username (by decide) (by decide),
    hline "password" password (by decide) (by decide), nil_append, append_nil, cons_append]

private theorem length_unescape_le (value : Text) : (unescape value).length ≤ value.length := by
  fun_induction unescape with
  | case1 => rfl
  | case2 c rest ih =>
    have hescaped : (escaped c).length ≤ 2 := by
      unfold escaped
      split_ifs <;> simp
    rw [length_append, length_cons, length_cons]
    omega
  | case3 => simpa

private theorem readValue_eq_iff : readValue (escapeIniValue value) = value ↔ Verbatim value := by
  constructor
  · intro h
    have hescape : escapeIniValue value <+ value := filter_sublist
    have htrim (s) : trimSpace s <+ s :=
      (List.rdropWhile_prefix _ _).sublist.trans (dropWhile_suffix _).sublist
    have hunquote (s) : unquote s <+ s := by
      unfold unquote
      split_ifs
      · exact (dropLast_sublist _).trans (tail_sublist _)
      · exact Sublist.refl _
    -- nothing was taken out, for the length is the same
    have hlength := length_unescape_le (unquote (trimSpace (escapeIniValue value)))
    rw [← readValue, h] at hlength
    have hall := ((hunquote _).trans (htrim _)).trans hescape |>.eq_of_length_le hlength
    have hwhole := (hunquote _).trans (htrim (escapeIniValue value))
    rw [hall] at hwhole
    have hescaped := hescape.antisymm hwhole
    rw [hescaped] at hall h
    have htrimmed := hunquote (trimSpace value)
    rw [hall] at htrimmed
    have htrimmed := (htrim _).antisymm htrimmed
    rw [htrimmed] at hall
    rw [readValue, htrimmed, hall] at h
    exact ⟨hescaped, htrimmed, hall, h⟩
  · rintro ⟨hescape, htrim, hunquote, hunescape⟩
    rw [readValue, hescape, htrim, hunquote, hunescape]

/-- The account is read back exactly if its name and its password are kept as they are. -/
theorem defaultsFile_iff (username password : Text) :
    readOptions (contents username password) =
        [("user".toList, username), ("password".toList, password)] ↔
      Verbatim username ∧ Verbatim password := by
  rw [readOptions_contents]
  simp [readValue_eq_iff]

/-- A number sign is taken out of the password. -/
theorem contents_hash :
    readOptions (contents "backup" "se#cret") =
      [("user".toList, "backup".toList), ("password".toList, "secret".toList)] := by
  decide

end Abyssal.Reliquary.Defaults
