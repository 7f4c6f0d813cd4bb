import Marginalia.Cli.Arguments
import Marginalia.Mark.Basic

/-!
The commands of the program and how they are written as arguments.
-/

namespace Marginalia

/-- What a new annotation is to be: page, kind and box, and the text and colour if they were given. -/
structure MarkRequest where
  page : Nat
  kind : MarkKind
  box : ViewerBox Float
  content : Option String
  color : Option Color

inductive Subcommand where
  | text (file : String) (page : Option Nat)
  | searchable (file : String) (sample : Option Nat)
  | search (file query : String)
  | annotations (file : String)
  | add (file : String) (request : MarkRequest) (output : Option String)
  | select (file : String) (page : Nat) (drag : ViewerBox Float) (kind : Option MarkKind)
      (output : Option String)
  | save (file list : String) (scale : Float) (output : Option String)
  | strip (file : String) (output : Option String)
  | deletePage (file : String) (page : Nat) (list output : Option String)
  | pages (file : String)
  | settings (init force : Bool)

/-- A command with what holds for all commands: where the settings are, and whether results are shown
as tables. -/
structure Invocation where
  settings : Option String
  table : Bool
  command : Subcommand

namespace Subcommand

open OptionRule Arguments

/-- The options that stand in front of a command or behind it. -/
def sharedRules : List OptionRule :=
  [value "settings" none, flag "table", flag "verbose", ⟨"help", some 'h', true, false, false⟩]

/-- The options in front of the command. -/
def frontRules : List OptionRule :=
  sharedRules ++ [⟨"version", some 'V', true, false, false⟩]

/-- An option with a value that has a name and the letter that the name starts with. -/
def lettered (key : String) : OptionRule := value key key.toList.head?

/-- An option whose value may be negative. -/
def signed (key : String) : OptionRule := { value key none with takesNegative := true }

/-- The options of each command by its name. -/
def rules? : String → Option (List OptionRule)
  | "text" => some [lettered "page"]
  | "searchable" => some [lettered "sample"]
  | "search" => some []
  | "annotations" => some []
  | "add" => some [lettered "page", lettered "kind", letterValue "x" 'x', letterValue "y" 'y',
      value "width" none, value "height" none, lettered "text", lettered "color", lettered "output"]
  | "select" => some [lettered "page", letterValue "x" 'x', letterValue "y" 'y', signed "width",
      signed "height", lettered "kind", lettered "output"]
  | "save" => some [lettered "scale", lettered "output"]
  | "strip" => some [lettered "output"]
  | "delete-page" => some [lettered "annotations", lettered "output"]
  | "pages" => some []
  | "settings" => some [flag "init", flag "force"]
  | _ => none

/-- A path, which is not empty. -/
def path? (written : String) : Option String :=
  if written.isEmpty then none else some written

/-- The value of an option that may be missing, but not unreadable. -/
def optional? {β : Type} (a : Arguments) (key : String) (read : String → Option β) :
    Option (Option β) :=
  match a.value? key with
  | some written => (read written).map some
  | none => some none

/-- The value of an option with a default. -/
def defaulted? {β : Type} (a : Arguments) (key : String) (read : String → Option β) (default : β) :
    Option β :=
  (optional? a key read).map fun v => v.getD default

/-- The value of an option that has to be there. -/
def required? {β : Type} (a : Arguments) (key : String) (read : String → Option β) : Option β :=
  (a.value? key).bind read

def page? (written : String) : Option Nat := nat? 32 written

def box? (a : Arguments) : Option (ViewerBox Float) := do
  return ⟨← required? a "x" number?, ← required? a "y" number?, ← required? a "width" number?,
    ← required? a "height" number?⟩

def output? (a : Arguments) : Option (Option String) := optional? a "output" path?

/-- The command of a name with its arguments. -/
def ofArguments? (name : String) (a : Arguments) : Option Subcommand := do
  match name, a.operands with
  | "text", [file] => return text (← path? file) (← optional? a "page" page?)
  | "searchable", [file] => return searchable (← path? file) (← optional? a "sample" (count? 64))
  | "search", [file, query] => return search (← path? file) query
  | "annotations", [file] => return annotations (← path? file)
  | "add", [file] =>
    let request : MarkRequest := {
      page := ← defaulted? a "page" page? 1
      kind := ← defaulted? a "kind" MarkKind.parse? .freeText
      box := ← box? a
      content := a.value? "text"
      color := ← optional? a "color" Color.parse? }
    return add (← path? file) request (← output? a)
  | "select", [file] =>
    return select (← path? file) (← defaulted? a "page" page? 1) (← box? a)
      (← optional? a "kind" MarkKind.parse?) (← output? a)
  | "save", [file, list] =>
    return save (← path? file) (← path? list) (← defaulted? a "scale" number? 1) (← output? a)
  | "strip", [file] => return strip (← path? file) (← output? a)
  | "delete-page", [file, page] =>
    return deletePage (← path? file) (← page? page) (← optional? a "annotations" path?) (← output? a)
  | "pages", [file] => return pages (← path? file)
  | "settings", [] =>
    if a.has "force" && !a.has "init" then none else return settings (a.has "init") (a.has "force")
  | _, _ => none

end Subcommand

namespace Invocation

open Subcommand

/-- Whether the words behind the command that asks for help name one command at most. -/
def asksForHelp : List String → Bool
  | [] => true
  | [name] => name == "help" || (rules? name).isSome
  | _ => false

/-- Reads all arguments of the program. An option behind the command counts more than one in front of
it, and that more than the environment. -/
def parse (environment : Option String) (arguments : List String) : Except Aside Invocation := do
  let (front, rest) ← Arguments.read frontRules true .empty arguments
  match rest with
  | [] => .error .misuse
  | "help" :: words => .error (if asksForHelp words then .help else .misuse)
  | name :: rest =>
    match rules? name with
    | none => .error .misuse
    | some rules =>
      let (back, _) ← Arguments.read (rules ++ sharedRules) false .empty rest
      let settings := [back.value? "settings", front.value? "settings", environment].filterMap id
      match ofArguments? name back with
      | none => .error .misuse
      | some command =>
        if settings.any String.isEmpty then .error .misuse
        else .ok ⟨settings.head?, front.has "table" || back.has "table", command⟩

end Invocation

end Marginalia
