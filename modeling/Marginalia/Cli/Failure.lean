import Marginalia.Document.Error
import Marginalia.Mark.Basic

/-!
Why a command fails, and the words for it.
-/

namespace Marginalia

/-- Why a file cannot be read or written. -/
inductive FileError where
  | notFound
  | alreadyExists
  | notFolder
  | isFolder
  | nameTooLong
  | notText
  | other (code : Nat) (detail : String)
deriving DecidableEq, Repr

namespace FileError

/-- A message of the system with its number. -/
def numbered (detail : String) (code : Nat) : String :=
  detail ++ " (os error " ++ toString code ++ ")"

def message : FileError → String
  | notFound => numbered "No such file or directory" 2
  | alreadyExists => numbered "File exists" 17
  | notFolder => numbered "Not a directory" 20
  | isFolder => numbered "Is a directory" 21
  | nameTooLong => numbered "File name too long" 36
  | notText => "stream did not contain valid UTF-8"
  | other code detail => numbered detail code

end FileError

inductive Failure where
  | document (e : DocumentError)
  | noSuchPage (page count : Nat)
  | notMarkup (kind : MarkKind)
  | unreadable (path : String) (e : FileError)
  | unwritable (path : String) (e : FileError)
  | malformedList (path : String)
  | noSettingsFolder
  | settingsExist (path : String)
  | settingsFolder (path : String) (e : FileError)
  | settingsUnwritable (path : String) (e : FileError)
deriving DecidableEq, Repr

namespace Failure

/-- What failed and, behind it, why. -/
def messages : Failure → List String
  | document e => [e.message]
  | noSuchPage page count =>
    ["Invalid argument: page " ++ toString page ++ " is out of range (document has " ++
      toString count ++ " pages)"]
  | notMarkup kind =>
    ["Invalid argument: a selection can only be marked as highlight or underline, not " ++ kind.name]
  | unreadable path e => ["failed to read " ++ path, e.message]
  | unwritable path e => ["failed to write " ++ path, e.message]
  | malformedList path => ["malformed annotation list " ++ path, "it is no JSON list of annotations"]
  | noSettingsFolder => ["Unable to determine config directory"]
  | settingsExist path =>
    ["Settings error: " ++ path ++ " already exists, use --force to overwrite"]
  | settingsFolder path e => ["Settings error: cannot create " ++ path ++ ": " ++ e.message]
  | settingsUnwritable path e => ["Settings error: cannot write " ++ path ++ ": " ++ e.message]

end Failure

end Marginalia
