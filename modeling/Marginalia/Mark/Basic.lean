import Marginalia.Mark.Color
import Marginalia.Mark.Uuid
import Marginalia.Geometry.Box

/-!
Annotations in viewer space, and the kinds there are.
-/

namespace Marginalia

inductive MarkKind where
  | freeText
  | highlight
  | underline
  | ocrText
deriving DecidableEq, Repr

namespace MarkKind

def name : MarkKind → String
  | freeText => "free-text"
  | highlight => "highlight"
  | underline => "underline"
  | ocrText => "ocr-text"

/-- The kind whose name this is. -/
def ofName? : String → Option MarkKind
  | "free-text" => some freeText
  | "highlight" => some highlight
  | "underline" => some underline
  | "ocr-text" => some ocrText
  | _ => none

/-- Reads a name as a user writes it: in any case, and with the short forms. -/
def parse? (s : String) : Option MarkKind :=
  match String.ofList (s.toList.map Char.toLower) with
  | "free-text" | "freetext" | "text" => some freeText
  | "highlight" => some highlight
  | "underline" => some underline
  | "ocr-text" | "ocr" => some ocrText
  | _ => none

/-- What a text that names no kind is told. -/
def invalidMessage (s : String) : String :=
  "Unknown annotation kind " ++ Quoted.render s ++
    " (expected free-text, highlight, underline or ocr-text)"

def defaultColor : MarkKind → Color
  | highlight => .yellow
  | underline => .red_
  | freeText | ocrText => .black

/-- The subtype of the annotation objects of this kind. Recognised text has none, because it is kept
in the page content. -/
def subtype? : MarkKind → Option String
  | freeText => some "FreeText"
  | highlight => some "Highlight"
  | underline => some "Underline"
  | ocrText => none

def ofSubtype? (subtype : Bytes) : Option MarkKind :=
  if subtype == Syntax.ascii "FreeText" then some freeText
  else if subtype == Syntax.ascii "Highlight" then some highlight
  else if subtype == Syntax.ascii "Underline" then some underline
  else none

end MarkKind

/-- An annotation. Pages count from one; the font size is in viewer pixels. -/
structure Mark (α : Type) where
  id : MarkId
  kind : MarkKind
  content : String
  box : ViewerBox α
  page : Nat
  color : Color
  fontFamily : String
  fontSize : Nat
  bold : Bool

namespace Mark

def defaultFontFamily : String := "Malgun Gothic"

def defaultFontSize : Nat := 14

/-- The font size recorded for recognised text. -/
def ocrFontSize : Nat := 10

variable {α : Type} [Scalar α]

/-- A new annotation with what its kind has by default. -/
def new (kind : MarkKind) (page : Nat) (box : ViewerBox α) (content : String) :
    Mark α where
  id := .pending
  kind := kind
  content := content
  box := box.normalized
  page := page
  color := kind.defaultColor
  fontFamily := defaultFontFamily
  fontSize := defaultFontSize
  bold := false

end Mark

/-- Keeps annotations in step with the removal of a page: those on it go, and those behind it move up
by one. -/
def renumberAfterDelete {α : Type} (page : Nat) (marks : List (Mark α)) :
    List (Mark α) :=
  (marks.filter fun a => a.page ≠ page).map fun a =>
    if page < a.page then { a with page := a.page - 1 } else a

end Marginalia
