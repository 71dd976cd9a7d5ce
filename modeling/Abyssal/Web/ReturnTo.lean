import Abyssal.Text.Basic

/-!
# Where a form leads back to

`safe_return_to` accepts what begins with one slash. A browser drops tabs and line ends from a
reference and takes a backslash for a slash before it looks for a host.

## Main results

* `safeReturnTo_iff`: which accepted texts lead to the same origin.
* `safeReturnTo_backslash`: two that lead elsewhere.
-/

namespace Abyssal.Web

variable {Origin : Type}

def accepts (returnTo : Text) : Bool :=
  "/".toList.isPrefixOf returnTo && !"//".toList.isPrefixOf returnTo

def safeReturnTo (returnTo default : Text) : Text :=
  if accepts returnTo then returnTo else default

/-- What a browser makes of a host, and of a reference that does not begin with a slash. -/
structure Browser (Origin : Type) where
  host : Text → Option Origin
  other : Text → Option Origin

def isKept (c : Char) : Bool := c ≠ '\t' && c ≠ '\n' && c ≠ '\r'

def asSlash (c : Char) : Char := if c = '\\' then '/' else c

/-- The origin of the URL that a reference leads to from this origin, if it is one. All slashes in
front of a host are skipped. -/
def Browser.resolve (browser : Browser Origin) (origin : Origin) (reference : Text) :
    Option Origin :=
  match (reference.filter isKept).map asSlash with
  | '/' :: '/' :: rest => browser.host (rest.dropWhile (· = '/'))
  | '/' :: _ => some origin
  | text => browser.other text

/-- An accepted text leads to the same origin, whatever the browser makes of hosts, exactly if no
slash or backslash comes after the first one, tabs and line ends apart. -/
theorem safeReturnTo_iff (origin : Origin) (returnTo default : Text) :
    (∀ browser : Browser Origin,
      (accepts returnTo → safeReturnTo returnTo default = returnTo ∧
        browser.resolve origin returnTo = some origin) ∧
      (¬ accepts returnTo → safeReturnTo returnTo default = default)) ↔
    (accepts returnTo → ∀ c rest, returnTo.filter isKept = '/' :: c :: rest →
      c ≠ '/' ∧ c ≠ '\\') := by
  constructor
  · intro h hok c rest hkept
    have horigin := ((h ⟨fun _ => none, fun _ => none⟩).1 hok).2
    rw [Browser.resolve, hkept] at horigin
    constructor <;> rintro rfl <;> cases horigin
  · intro h browser
    refine ⟨fun hok => ⟨if_pos hok, ?_⟩, fun hno => if_neg hno⟩
    obtain ⟨t, rfl⟩ := List.isPrefixOf_iff_prefix.1 (Bool.and_eq_true_iff.1 hok).1
    have hslash : ("/" ++ t).filter isKept = '/' :: t.filter isKept := rfl
    rw [Browser.resolve, hslash]
    cases hkept : t.filter isKept with
    | nil => rfl
    | cons c rest =>
      obtain ⟨hc, hc'⟩ := h hok c rest (hslash.trans (congrArg _ hkept))
      simp [asSlash, hc, hc']

/-- The browser reads a backslash, or a slash behind a tab, as the second slash. -/
theorem safeReturnTo_backslash :
    (accepts "/\\evil.example" ∧
      (⟨some, fun _ => none⟩ : Browser Text).resolve "arsenal.example"
        "/\\evil.example" = some "evil.example".toList) ∧
    accepts "/\t/evil.example" ∧
      (⟨some, fun _ => none⟩ : Browser Text).resolve "arsenal.example"
        "/\t/evil.example" = some "evil.example".toList := by
  decide

end Abyssal.Web
