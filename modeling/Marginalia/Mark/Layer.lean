import Marginalia.Document.Store

/-!
The streams that carry recognised text in the content of a page. They are told from the page's own
streams by a tag in their dictionaries.
-/

namespace Marginalia

namespace Layer

variable {α : Type}

/-- The key of the tag. -/
def tagKey : String := "PagemarkLayer"

/-- The tag of a stream of recognised text. -/
def textTag : String := "Ocr"

/-- The tag of the stream in front of the page's own content. It saves the state that the text is to
be drawn in. -/
def guardTag : String := "OcrGuard"

/-- The tag of a content stream, if it has one. -/
def tag? (d : Document α) (id : ObjectId) : Option Bytes := do
  let (entries, _) ← d.getStream? id
  entries.name? tagKey

/-- The content streams of a page in drawing order. -/
def streams (d : Document α) (page : Dict α) : List ObjectId :=
  match page.get? "Contents" with
  | some (.ref id) =>
    match d.get? id with
    | some (.array items) => items.filterMap Object.ref?
    | _ => [id]
  | some (.array items) => items.filterMap Object.ref?
  | _ => []

end Layer

end Marginalia
