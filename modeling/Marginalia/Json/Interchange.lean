import Marginalia.Json.Record
import Marginalia.Mark.Recognition
import Marginalia.Mark.Writer

/-!
The JSON form of runs, boxes, colours, annotations and fonts: what is written, and what is accepted.
-/

namespace Marginalia

namespace Interchange

open Json

def boxFields (b : ViewerBox Float) : List (String × Json) :=
  [("x", ofFloat b.x), ("y", ofFloat b.y), ("width", ofFloat b.width), ("height", ofFloat b.height)]

def readBox (fs : Fields) : Option (ViewerBox Float) := do
  return ⟨← fs.required "x" float?, ← fs.required "y" float?, ← fs.required "width" float?,
    ← fs.required "height" float?⟩

def ofBox (b : ViewerBox Float) : Json := ofEntries (boxFields b)

def box? (v : Json) : Option (ViewerBox Float) :=
  (record? ["x", "y", "width", "height"] v).bind readBox

def ofRun (r : TextRun Float) : Json := ofEntries (("text", ofString r.text) :: boxFields r.box)

def run? (v : Json) : Option (TextRun Float) := do
  let fs ← record? ["text", "x", "y", "width", "height"] v
  return ⟨← fs.required "text" string?, ← readBox fs⟩

def ofColor (c : Color) : Json := ofString c.text

/-- A colour. A string that is none is black, so that it never fails what holds it. -/
def color? (v : Json) : Option Color :=
  v.string?.map fun s => (Color.parse? s).getD .black

def ofKind (k : MarkKind) : Json := ofString k.name

def kind? (v : Json) : Option MarkKind :=
  v.constant?.bind MarkKind.ofName?

def id? (v : Json) : Option MarkId :=
  v.string?.bind fun s => (Uuid.parse? s.toList).map MarkId.known

def ofMark (m : Mark Float) : Json :=
  ofEntries ([("id", ofString m.id.text), ("kind", ofKind m.kind), ("content", ofString m.content)] ++
    boxFields m.box ++
    [("page", ofNat m.page), ("color", ofColor m.color), ("font_family", ofString m.fontFamily),
      ("font_size", ofNat m.fontSize), ("bold", .bool m.bold)])

def mark? (v : Json) : Option (Mark Float) := do
  let fs ← record? ["id", "kind", "content", "x", "y", "width", "height", "page", "color",
    "font_family", "font_size", "bold"] v
  return {
    id := ← fs.optional "id" id? .pending
    kind := ← fs.required "kind" kind?
    content := ← fs.optional "content" string? ""
    box := ← readBox fs
    page := ← fs.required "page" (nat? 32)
    color := ← fs.optional "color" color? .black
    fontFamily := ← fs.optional "font_family" string? Mark.defaultFontFamily
    fontSize := ← fs.optional "font_size" (nat? 32) Mark.defaultFontSize
    bold := ← fs.optional "bold" bool? false }

def ofMarks (ms : List (Mark Float)) : Json := .array (ms.map ofMark)

def marks? (v : Json) : Option (List (Mark Float)) := v.list? mark?

def ofFontSource : FontSource → Json
  | .standard family baseFont boldBaseFont =>
    ofEntries [("kind", ofString "standard"), ("family", ofString family),
      ("base_font", ofString baseFont), ("bold_base_font", ofString boldBaseFont)]
  | .cjk family baseFont ordering supplement encoding =>
    ofEntries [("kind", ofString "cjk"), ("family", ofString family), ("base_font", ofString baseFont),
      ("ordering", ofString ordering), ("supplement", ofInt supplement),
      ("encoding", ofString encoding)]

/-- The kind of a tagged record and the record without its tag: the key `kind` of an object, or the
first item of an array. -/
def tagged? : Json → Option (String × Json)
  | .object entries =>
    match entries.filter fun e => e.1 == some "kind" with
    | [(_, .string (some tag))] => some (tag, .object (entries.filter fun e => e.1 != some "kind"))
    | _ => none
  | .array (.string (some tag) :: items) => some (tag, .array items)
  | _ => none

/-- How deep a value may lie that is held before it is looked at. -/
def maxDepth : Nat := 127

/-- A font source inside so many arrays and objects. All of it is held before it is looked at, so nothing
in it may be malformed or lie too deep. -/
def fontSource? (outer : Nat) (v : Json) : Option FontSource := do
  if !v.wellFormed || maxDepth < outer + v.depth then none
  let (tag, v) ← tagged? v
  match tag with
  | "standard" =>
    let fs ← record? ["family", "base_font", "bold_base_font"] v
    return .standard (← fs.required "family" string?) (← fs.required "base_font" string?)
      (← fs.required "bold_base_font" string?)
  | "cjk" =>
    let fs ← record? ["family", "base_font", "ordering", "supplement", "encoding"] v
    return .cjk (← fs.required "family" string?) (← fs.required "base_font" string?)
      (← fs.required "ordering" string?)
      (← fs.required "supplement" (intWithin? (-(2 ^ 63)) (2 ^ 63 - 1)))
      (← fs.required "encoding" string?)
  | _ => none

def ofFontChain (c : FontChain) : Json :=
  ofEntries [("candidates", .array (c.candidates.map ofFontSource)),
    ("cjk_fallback", ofString c.cjkFallback), ("universal_fallback", ofString c.universalFallback)]

/-- A font chain inside so many arrays and objects. -/
def fontChain? (outer : Nat) (v : Json) : Option FontChain := do
  let fs ← record? ["candidates", "cjk_fallback", "universal_fallback"] v
  return ⟨← fs.required "candidates" (list? (fontSource? (outer + 2))), ← fs.required "cjk_fallback" string?,
    ← fs.required "universal_fallback" string?⟩

def ofSaveOptions (o : SaveOptions Float) : Json :=
  ofEntries [("scale", ofFloat o.scale), ("fonts", ofFontChain o.fonts)]

def saveOptions? (v : Json) : Option (SaveOptions Float) := do
  let fs ← record? ["scale", "fonts"] v
  return ⟨← fs.required "scale" float?, ← fs.required "fonts" (fontChain? 1)⟩

/-- How deep forms are followed, as a record of its own. -/
def ofNesting (nesting : Nat) : Json := ofEntries [("max_form_depth", ofNat nesting)]

def nesting? (v : Json) : Option Nat := do
  let fs ← record? ["max_form_depth"] v
  fs.required "max_form_depth" (nat? 64)

end Interchange

end Marginalia
