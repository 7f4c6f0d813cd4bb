import Marginalia.Content.Printer
import Marginalia.Document.Reachability
import Marginalia.Document.Resources
import Marginalia.Font.Chain
import Marginalia.Mark.DefaultStyle
import Marginalia.Mark.Layer
import Marginalia.Text.Wrapping

/-!
Writing annotations into a document. What the document has of its own annotations and recognised text
is removed first, so that a saved document has exactly the annotations it was saved with.
-/

namespace Marginalia

/-- How annotations are saved: the zoom factor that their coordinates were taken at, and the fonts
that their text is written with. -/
structure SaveOptions (α : Type) where
  scale : α
  fonts : FontChain

namespace SaveOptions

variable {α : Type} [Scalar α]

def default : SaveOptions α := ⟨Scalar.one, .default⟩

/-- The zoom factor; one that is not finite and positive counts as one. -/
def effectiveScale (o : SaveOptions α) : α :=
  if Scalar.isFinite o.scale && decide (Scalar.zero < o.scale) then o.scale else Scalar.one

end SaveOptions

namespace MarkWriter

variable {α : Type}

/-- A string object for a text: literal if it is ASCII. -/
def textObject (text : String) : Object α :=
  .string (TextString.encode text) (!TextString.isAscii text.toList)

def literal (text : String) : Object α := .string (Utf8.encode text.toList) false

/-- The entries of a page that is to be written on. -/
def entriesOn (d : Document α) (page : ObjectId) : Except DocumentError (Dict α) :=
  match d.locateDict page with
  | .ok (_, entries) => .ok entries
  | .error e => .error (.save e.message)

/-- Changes the dictionary of a page. -/
def updatePage (d : Document α) (page : ObjectId) (f : Dict α → Dict α) : Except DocumentError (Document α) :=
  match d.modifyDict page f with
  | .ok d => .ok d
  | .error e => .error (.save ("cannot update page (" ++ toString page.number ++ ", " ++
      toString page.generation ++ "): " ++ e.message))

def refs (ids : List ObjectId) : Object α := .array (ids.map .ref)

/-- Removes the annotations of a page and the streams of its content that have a tag. -/
def clearPage (d : Document α) (page : ObjectId) : Except DocumentError (Document α) := do
  let ids := Layer.streams d (← entriesOn d page)
  let kept := ids.filter fun id => (Layer.tag? d id).isNone
  updatePage d page fun entries =>
    let entries := entries.erase "Annots"
    if kept.length = ids.length then entries else entries.set "Contents" (refs kept)

/-- Sets the annotations of a page that has none, if there are any. -/
def setAnnots (d : Document α) (page : ObjectId) (ids : List ObjectId) : Except DocumentError (Document α) :=
  if ids.isEmpty then .ok d else updatePage d page (·.set "Annots" (refs ids))

variable [Scalar α]

/-- A number as documents keep it. -/
def real (x : α) : Object α := .real (Scalar.narrow x)

def rectObject (r : PageRect α) : Object α :=
  .array [real r.left, real r.bottom, real r.right, real r.top]

def colorObjects (c : Color) : List (Object α) := (c.units (α := α)).map real

/-- The smallest size, in points, that an appearance draws text at. -/
def minFontSize : α := ((4 : Nat) : α)

/-- How many characters fit on a line of a width, at least one. -/
def charsPerLine (width size : α) : Nat :=
  max 1 ((Scalar.exact (width / (size * GraphicsState.glyphRatio))).floorWithin 0 (2 ^ 64 - 1)).toNat

/-- The key of the font in the resources of an appearance. -/
def appearanceFontKey : String := "F0"

/-- The lines of an annotation's text in the width of its box. -/
def appearanceLines (m : Mark α) (width size : α) : List (List Char) :=
  Wrapping.lines (charsPerLine width size) m.content.toList

/-- Shows a line, counted from zero, below the top of a box. -/
def showLine (font : FontSource) (height size : α) (index : Nat) (line : List Char) :
    List (Instruction α) :=
  let baseline := height - size - (index : α) * size * GraphicsState.leadingRatio
  [⟨"Tm", [.int 1, .int 0, .int 0, .int 1, .int 0, real baseline]⟩,
    ⟨"Tj", [.string (font.encode (String.ofList line)) true]⟩]

/-- The program that draws a free text: its lines from the top of its box down, clipped to the box. -/
def appearanceProgram (font : FontSource) (m : Mark α) (width height size : α) :
    List (Instruction α) :=
  let size := Scalar.greater size minFontSize
  let lines := appearanceLines m width size
  let shown := (lines.zip (List.range lines.length)).flatMap fun (line, i) =>
    if line.isEmpty then [] else showLine font height size i line
  [⟨"q", []⟩, ⟨"re", [.int 0, .int 0, real width, real height]⟩, ⟨"W", []⟩, ⟨"n", []⟩,
    ⟨"rg", colorObjects m.color⟩, ⟨"BT", []⟩, ⟨"Tf", [.nameOf appearanceFontKey, real size]⟩] ++
  shown ++ [⟨"ET", []⟩, ⟨"Q", []⟩]

/-- Adds the form that a free text is drawn with. -/
def addAppearance (d : Document α) (font : FontSource) (m : Mark α) (rect : PageRect α) (size : α) :
    Document α × ObjectId :=
  let (d, fontEntries) := font.dictionary d m.bold
  let (d, fontId) := d.add (.dict fontEntries)
  d.add (.streamOf (Dict.ofList [
    ("Type", .nameOf "XObject"),
    ("Subtype", .nameOf "Form"),
    ("BBox", .array [.int 0, .int 0, real rect.width, real rect.height]),
    ("Resources", .ofEntries [("Font", .ofEntries [(appearanceFontKey, .ref fontId)])])])
    (printProgram (appearanceProgram font m rect.width rect.height size)))

/-- Adds a free text to the page of an identifier and frame. -/
def addFreeText (d : Document α) (fonts : FontChain) (page : ObjectId) (frame : PageFrame α)
    (m : Mark α) (box : ViewerBox α) : Except DocumentError (Document α × ObjectId) := do
  let rect := frame.rectToPage box
  let font ← fonts.resolve m.fontFamily m.content
  let size := Resolution.fontPoints m.fontSize
  let (d, appearance) := addAppearance d font m rect size
  return d.add (.ofEntries [
    ("Type", .nameOf "Annot"),
    ("Subtype", .nameOf "FreeText"),
    ("Rect", rectObject rect),
    ("Contents", textObject m.content),
    ("DA", literal (DefaultAppearance.render size m.color)),
    ("DS", literal (DefaultStyle.render m.fontFamily size m.bold m.color)),
    ("NM", literal m.id.text),
    ("F", .int 4),
    ("P", .ref page),
    ("Border", .array [.int 0, .int 0, .int 0]),
    ("AP", .ofEntries [("N", .ref appearance)])])

/-- Adds a highlight or an underline. An underline is red, whatever its colour. -/
def addMarkup (d : Document α) (page : ObjectId) (frame : PageFrame α) (m : Mark α)
    (box : ViewerBox α) : Document α × ObjectId :=
  let rect := frame.rectToPage box
  let (subtype, color) := match m.kind with
    | .underline => ("Underline", Color.red_)
    | _ => ("Highlight", m.color)
  d.add (.ofEntries [
    ("Type", .nameOf "Annot"),
    ("Subtype", .nameOf subtype),
    ("Rect", rectObject rect),
    ("QuadPoints", .array (rect.quadPoints.map real)),
    ("C", .array (colorObjects color)),
    ("Contents", textObject m.content),
    ("NM", literal m.id.text),
    ("F", .int 4),
    ("P", .ref page)])

/-- Adds annotation objects for all annotations that have one, in their order. -/
def addObjects (o : SaveOptions α) (page : ObjectId) (frame : PageFrame α) :
    Document α → List (Mark α) → Except DocumentError (Document α × List ObjectId)
  | d, [] => .ok (d, [])
  | d, m :: ms => do
    let box := m.box.unscaled o.effectiveScale
    let (d, id) ← match m.kind with
      | .freeText => addFreeText d o.fonts page frame m box
      | _ => pure (addMarkup d page frame m box)
    let (d, ids) ← addObjects o page frame d ms
    return (d, id :: ids)

/-- The name of the graphics state that recognised text is drawn in. -/
def layerStateName : String := "PmOcrGs"

/-- The opacity of recognised text: not to be seen, but not to be dropped either. -/
def layerOpacity : α := Scalar.constant 4 3

/-- Recognised text under way: the document, the fonts that have a name so far, and the program. -/
structure Drawing (α : Type) where
  document : Document α
  fonts : Dict α
  families : List (String × String)
  program : List (Instruction α)

/-- The name of a font in the drawing, which is added with its family's first text. -/
def Drawing.font (s : Drawing α) (font : FontSource) : Drawing α × String :=
  match s.families.find? fun e => e.1 == font.family with
  | some (_, name) => (s, name)
  | none =>
    let name := "PmOcr" ++ toString s.families.length
    let (d, entries) := font.dictionary s.document false
    let (d, id) := d.add (.dict entries)
    ({ s with
      document := d
      fonts := s.fonts.set name (.ref id)
      families := s.families ++ [(font.family, name)] }, name)

/-- How far a text is stretched to fill a width at a size. -/
def stretch (text : String) (width size : α) : α :=
  let natural := (text.length : α) * size * GraphicsState.glyphRatio
  if Scalar.zero < natural then
    if Scalar.zero < width then Resolution.toPoints width / natural else Scalar.one
  else Scalar.one

/-- Draws a recognised text along the bottom of its box. An empty one, or one in a box without
height, is left out. -/
def Drawing.show_ (s : Drawing α) (fonts : FontChain) (frame : PageFrame α) (m : Mark α)
    (box : ViewerBox α) : Except DocumentError (Drawing α) := do
  let size := Resolution.toPoints box.height
  if m.content.isEmpty || decide (size ≤ Scalar.zero) then return s
  else
    let font ← fonts.resolve m.fontFamily m.content
    let (s, name) := s.font font
    let (x, y) := frame.toPage box.x box.bottom
    return { s with program := s.program ++ [
      ⟨"Tf", [.nameOf name, real size]⟩,
      ⟨"Tz", [real (stretch m.content box.width size * ((100 : Nat) : α))]⟩,
      ⟨"Tm", [.int 1, .int 0, .int 0, .int 1, real x, real y]⟩,
      ⟨"Tj", [.string (font.encode m.content) true]⟩] }

/-- Draws several texts one after another. -/
def Drawing.showAll (o : SaveOptions α) (frame : PageFrame α) :
    Drawing α → List (Mark α) → Except DocumentError (Drawing α)
  | s, [] => .ok s
  | s, m :: ms => do
    let s ← s.show_ o.fonts frame m (m.box.unscaled o.effectiveScale)
    showAll o frame s ms

/-- A category of resources, copied over references. -/
def category (d : Document α) (resources : Dict α) (key : String) : Dict α :=
  (((resources.get? key).map d.deref).bind Object.dict?).getD []

/-- The operations in front of all text: back to the initial state, then a state and colour of its
own. -/
def layerOpening : List (Instruction α) :=
  [⟨"Q", []⟩, ⟨"q", []⟩, ⟨"gs", [.nameOf layerStateName]⟩, ⟨"rg", [.int 0, .int 0, .int 0]⟩,
    ⟨"BT", []⟩]

/-- A stream of content with a tag. -/
def taggedStream (tag : String) (data : Bytes) : Object α :=
  .streamOf (Dict.ofList [(Layer.tagKey, .nameOf tag)]) data

/-- Adds recognised text to a page whose resources were `resources`. A stream in front of the page's
own content saves the initial state, and one behind it draws the text. -/
def addLayer (o : SaveOptions α) (d : Document α) (page : ObjectId) (frame : PageFrame α)
    (resources : Dict α) (ms : List (Mark α)) : Except DocumentError (Document α) := do
  let states := (category d resources "ExtGState").set layerStateName
    (.ofEntries [("Type", .nameOf "ExtGState"), ("ca", real layerOpacity)])
  let drawing : Drawing α := ⟨d, category d resources "Font", [], layerOpening⟩
  let s ← drawing.showAll o frame ms
  let program := s.program ++ [⟨"ET", []⟩, ⟨"Q", []⟩]
  let resources := (resources.set "Font" (.dict s.fonts)).set "ExtGState" (.dict states)
  let (d, guardId) := s.document.add (taggedStream Layer.guardTag (Syntax.ascii "q\n"))
  let (d, textId) := d.add (taggedStream Layer.textTag (0x0A :: printProgram program))
  let own := Layer.streams d (← entriesOn d page)
  updatePage d page fun entries =>
    (entries.set "Contents" (refs (guardId :: own ++ [textId]))).set "Resources" (.dict resources)

/-- A page that annotations are saved on. -/
structure Target (α : Type) where
  number : Nat
  id : ObjectId
  frame : PageFrame α
  resources : Dict α

/-- Saves the annotations of a page. -/
def addPage (o : SaveOptions α) (d : Document α) (t : Target α) (ms : List (Mark α)) :
    Except DocumentError (Document α) := do
  let (d, ids) ← addObjects o t.id t.frame d (ms.filter fun m => m.kind != .ocrText)
  let d ← setAnnots d t.id ids
  let recognised := ms.filter fun m => m.kind == .ocrText
  if recognised.isEmpty then return d else addLayer o d t.id t.frame t.resources recognised

/-- Saves annotations on their pages, page by page. -/
def addPages (o : SaveOptions α) (ms : List (Mark α)) :
    Document α → List (Target α) → Except DocumentError (Document α)
  | d, [] => .ok d
  | d, t :: ts => do
    let d ← addPage o d t (ms.filter fun m => m.page = t.number)
    addPages o ms d ts

/-- The pages that have a frame, with the resources that they draw with. -/
def targets (d : Document α) : List (Target α) :=
  d.numberedPages.filterMap fun (number, id) =>
    match d.frame id with
    | .ok frame => some ⟨number, id, frame, d.pageResources id⟩
    | .error _ => none

end MarkWriter

namespace InteractiveForm

variable {α : Type}

/-- The fonts with Helvetica under the name that default appearances use. -/
def withHelvetica (helvetica : ObjectId) (fonts : Dict α) : Dict α :=
  fonts.set "Helv" (.ref helvetica)

/-- The default resources with Helvetica among their fonts. -/
def withFont (helvetica : ObjectId) (resources : Dict α) : Dict α :=
  match resources.get? "Font" with
  | some (.dict fonts) => resources.set "Font" (.dict (withHelvetica helvetica fonts))
  | _ => resources.set "Font" (.dict (withHelvetica helvetica []))

/-- The form dictionary asking for appearances to be made, with Helvetica to make them with. -/
def prepared (helvetica : ObjectId) (form : Dict α) : Dict α :=
  let form := form.set "NeedAppearances" (.bool true)
  match form.get? "DR" with
  | some (.dict resources) => form.set "DR" (.dict (withFont helvetica resources))
  | _ => form.set "DR" (.dict (withFont helvetica []))

/-- The catalog with such a form in it. -/
def preparedIn (helvetica : ObjectId) (catalog : Dict α) : Dict α :=
  let form := match catalog.get? "AcroForm" with
    | some (.dict form) => form
    | _ => []
  catalog.set "AcroForm" (.dict (prepared helvetica form))

/-- The catalog that the trailer refers to. -/
def root (d : Document α) : Except AccessError ObjectId :=
  match d.trailer.get? "Root" with
  | some (.ref root) => .ok root
  | some v => .error (.wrongKind "Reference" v.kindName)
  | none => .error (.noEntry "Root")

/-- Sees to it that the document has a form dictionary that viewers can use. -/
def ensure (d : Document α) : Except DocumentError (Document α) := do
  match root d with
  | .error e => .error (.save ("cannot update AcroForm: " ++ e.message))
  | .ok root =>
    let (d, helvetica) := d.add (.dict (FontSource.simpleFont (.nameOf "Helvetica")))
    let updated := match ((d.getDict? root).bind (·.get? "AcroForm")).bind Object.ref? with
      | some form => d.modifyDict form (prepared helvetica)
      | none => d.modifyDict root (preparedIn helvetica)
    match updated with
    | .ok d => return d
    | .error e => .error (.save ("cannot update AcroForm: " ++ e.message))

end InteractiveForm

namespace Document

variable {α : Type} [Scalar α]

open MarkWriter

/-- The document with exactly these annotations. Those on pages that it does not have, or that have no
frame, are left out. -/
def save (d : Document α) (o : SaveOptions α) (ms : List (Mark α)) :
    Except DocumentError (Document α) := do
  let targets := targets d
  let cleared ← d.pages.foldlM clearPage d
  let written ← addPages o ms cleared targets
  let numbers := targets.map Target.number
  let hasObjects := ms.any fun m => m.kind != .ocrText && numbers.contains m.page
  let written ← if hasObjects then InteractiveForm.ensure written else pure written
  return written.prune

end Document

end Marginalia
