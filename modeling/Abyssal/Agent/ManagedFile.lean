import Abyssal.Text.Basic

/-!
# Files that the agent manages

The agent reads a file it manages with `cat` and replaces it with `tee`. How these end is an
argument: a `tee` that ends with an error leaves in the file whatever it leaves, and a `cat` that
does is read as an empty file. A file holds bytes, of any type; the agent handles texts.
-/

namespace Abyssal.Agent

/-- UTF-8. What is not valid is replaced by the decoding. -/
structure Utf8 (β : Type*) where
  encode : Text → β
  decodeLossy : β → Text
  decodeLossy_encode : ∀ text, decodeLossy (encode text) = text

def plainUtf8 : Utf8 Text where
  encode text := text
  decodeLossy text := text
  decodeLossy_encode _ := rfl

/-- What a program printed, and its exit code if it was not killed. -/
structure OperationOutput where
  stdout : Text
  stderr : Text
  exitCode : Option Int

/-- Whether the words of a message say that something could not be restored. -/
def saysNotRestored (message : Text) : Bool :=
  ["not restored", "not be restored", "not restore the"].any fun words =>
    (Text.splitAtText words.toList message).isSome

/-- How `cat` ends. It cannot print a file that does not exist. -/
inductive CatAnswer where
  /-- it could not be run -/
  | unspawned (error : String)
  /-- it ended with an error: the file is missing, or could not be read -/
  | refused
  /-- it printed the file -/
  | printed
  deriving DecidableEq

inductive TeeAnswer (β : Type*) where
  | written (output : OperationOutput)
  /-- it could not be run or ended with an error, and this is in the file afterwards -/
  | failed (error : String) (left : Option β)

variable {β : Type*}

def readManagedFile (u : Utf8 β) (file : Option β) : CatAnswer → Except String Text
  | .unspawned error => .error error
  | .refused => .ok []
  | .printed => .ok (file.elim [] u.decodeLossy)

/-- The result of an operation and the file afterwards. -/
abbrev Written (β : Type*) := Except String OperationOutput × Option β

def writeManagedFile (u : Utf8 β) (content : Text) : TeeAnswer β → Written β
  | .written output => (.ok output, some (u.encode content))
  | .failed error left => (.error error, left)

end Abyssal.Agent
