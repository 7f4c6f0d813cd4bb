import Marginalia.Document.Resources

/-!
The content of pages and the text that it draws.
-/

namespace Marginalia

namespace Document

variable {α : Type}

/-- How many objects that are no streams are followed from the contents of a page. -/
def maxContentSteps : Nat := 128

/-- The streams that the contents of a page name: by one reference or several, or by an array. -/
def streamsOf (d : Document α) : Nat → Object α → List ObjectId
  | 0, _ => []
  | steps + 1, .ref id =>
    match d.stored? id with
    | none => [id]
    | some (.stream ..) => [id]
    | some v => streamsOf d steps v
  | _ + 1, .array items => items.filterMap Object.ref?
  | _ + 1, _ => []

/-- The data of a stream without its filters, or with them if they cannot be taken off. -/
def contentData (d : Document α) (id : ObjectId) : Bytes :=
  match d.getStream? id with
  | some (entries, data) => (StreamData.decode? entries data).getD data
  | none => []

/-- The content program of a page: its streams joined with nothing in between. -/
def pageContent (d : Document α) (page : ObjectId) : Bytes :=
  match (d.getDict? page).bind (·.get? "Contents") with
  | some contents => (d.streamsOf maxContentSteps contents).flatMap d.contentData
  | none => []

variable [Scalar α]

/-- A page as extraction sees it. -/
def pageProgram (d : Document α) (page : ObjectId) : PageProgram α :=
  ⟨d.frame page, .ok (d.pageContent page), .page page⟩

/-- The runs of the page of a number, in drawing order. -/
def textRuns (d : Document α) (number nesting : Nat) : Except DocumentError (List (TextRun α)) := do
  (d.pageProgram (← d.page number)).runs d.resolver nesting

/-- The runs of a page, of which there are none if the page cannot be read. -/
def pageText (d : Document α) (number nesting : Nat) : List (TextRun α) :=
  match d.textRuns number nesting with
  | .ok runs => runs
  | .error _ => []

/-- Whether one of the first pages, at least one of which is looked at, shows text itself. -/
def hasTextLayer (d : Document α) (sample : Nat) : Bool :=
  (d.pages.take (max sample 1)).any fun page =>
    0 < countTextOperations (decodeOperations (α := α) (d.pageContent page))

end Document

end Marginalia
