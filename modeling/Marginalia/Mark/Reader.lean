import Marginalia.Document.Text
import Marginalia.Mark.DefaultStyle
import Marginalia.Mark.Layer
import Marginalia.Mark.Recognition

/-!
The annotations of a document: those of its annotation objects that this library knows, and the
recognised text in the content of its pages.
-/

namespace Marginalia

namespace MarkReader

variable {α : Type}

/-- The text of a string entry. -/
def text? (d : Document α) (entries : Dict α) (key : String) : Option String :=
  match (entries.get? key).map d.deref with
  | some (.string bytes _) => some (TextString.decode bytes)
  | _ => none

def text (d : Document α) (entries : Dict α) (key : String) : String :=
  (text? d entries key).getD ""

variable [Scalar α]

/-- The numbers of an array entry. -/
def numbers? (d : Document α) (entries : Dict α) (key : String) : Option (List α) := do
  d.numbers? (← (d.deref (← entries.get? key)).array?)

def rect? (d : Document α) (entries : Dict α) : Option (PageRect α) := do
  match ← numbers? d entries "Rect" with
  | x₁ :: y₁ :: x₂ :: y₂ :: _ => some (PageRect.ofCorners x₁ y₁ x₂ y₂)
  | _ => none

/-- A colour of three components or of one. -/
def color? (d : Document α) (entries : Dict α) : Option Color := do
  match ← numbers? d entries "C" with
  | [r, g, b] => some (Color.ofUnits r g b)
  | [gray] => some (Color.ofUnits gray gray gray)
  | _ => none

/-- The identifier in the name of an annotation. -/
def id (d : Document α) (entries : Dict α) : MarkId :=
  match (text? d entries "NM").bind fun s => Uuid.parse? (Unicode.trimChars s.toList) with
  | some u => .known u
  | none => .pending

/-- What a free text tells of its looks; where it tells nothing the defaults stand. -/
def withStyle (d : Document α) (entries : Dict α) (m : Mark α) : Mark α :=
  let appearance : DefaultAppearance α := .parse (text d entries "DA")
  let style := DefaultStyle.parse (text d entries "DS")
  { m with
    fontSize := (appearance.fontSize.map Resolution.fontPixels).getD m.fontSize
    color := appearance.color.getD m.color
    fontFamily := style.fontFamily.getD m.fontFamily
    bold := style.bold }

/-- The annotation of a dictionary. There is none for another subtype or without a rectangle. -/
def mark? (d : Document α) (frame : PageFrame α) (page : Nat) (entries : Dict α) :
    Option (Mark α) := do
  let kind ← MarkKind.ofSubtype? (← entries.name? "Subtype")
  let rect ← rect? d entries
  let m := { Mark.new kind page (frame.rectToViewer rect) (text d entries "Contents") with
    id := id d entries }
  match kind with
  | .highlight => return { m with color := (color? d entries).getD m.color }
  | .freeText => return withStyle d entries m
  | .underline | .ocrText => return m

/-- The annotation objects of a page. -/
def objects (d : Document α) (frame : PageFrame α) (page : Nat) (entries : Dict α) : List (Mark α) :=
  match ((entries.get? "Annots").map d.deref).bind Object.array? with
  | some items => items.filterMap fun v => (d.deref v).dict?.bind (mark? d frame page)
  | none => []

/-- The programs of the streams of recognised text on a page. -/
def layerPrograms (d : Document α) (entries : Dict α) : List (List (Operation α)) :=
  ((Layer.streams d entries).filter fun id => Layer.tag? d id == some (Syntax.ascii Layer.textTag)).filterMap
    fun id => do
      let (entries, data) ← d.getStream? id
      return decodeOperations (← StreamData.plain? entries data)

/-- The recognised text of a page, drawn by running its streams one after another. -/
def layer (d : Document α) (frame : PageFrame α) (id : ObjectId) (page : Nat) (entries : Dict α) :
    List (Mark α) :=
  let done := (layerPrograms d entries).foldl
    (fun s ops => Machine.runAll d.resolver frame defaultFormNesting (.page id) ops s) .initial
  ocrMarks done.runs page

end MarkReader

namespace Document

variable {α : Type} [Scalar α]

/-- The annotations of a page that has a frame. -/
def pageMarks (d : Document α) (number : Nat) (id : ObjectId) (frame : PageFrame α) : List (Mark α) :=
  match d.getDict? id with
  | some entries =>
    MarkReader.objects d frame number entries ++ MarkReader.layer d frame id number entries
  | none => []

/-- All annotations, page by page. A page without a frame has none. -/
def marks (d : Document α) : List (Mark α) :=
  d.numberedPages.flatMap fun (number, id) =>
    match d.frame id with
    | .ok frame => d.pageMarks number id frame
    | .error _ => []

end Document

end Marginalia
