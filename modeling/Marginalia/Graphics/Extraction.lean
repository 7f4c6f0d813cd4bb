import Marginalia.Graphics.Machine
import Marginalia.Document.Error

/-!
The text of one page, from its frame and its program.
-/

namespace Marginalia

/-- How deep forms are followed into forms when nothing else is asked for. -/
def defaultFormNesting : Nat := 32

/-- A page as extraction sees it: where it lies, what it draws, and where its names are looked up. -/
structure PageProgram (α : Type) where
  frame : Except DocumentError (PageFrame α)
  content : Except DocumentError Bytes
  scope : Scope

namespace PageProgram

variable {α : Type} [Scalar α]

/-- The runs of the page in drawing order. Only a page without a frame fails; one whose content
cannot be read draws nothing. -/
def runs (p : PageProgram α) (r : Resolver α) (nesting : Nat) :
    Except DocumentError (List (TextRun α)) :=
  match p.frame with
  | .error e => .error e
  | .ok frame =>
    match p.content with
    | .error _ => .ok []
    | .ok content =>
      .ok (Machine.runAll r frame nesting p.scope (r.operations content) .initial).runs

end PageProgram

end Marginalia
