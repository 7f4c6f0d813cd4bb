import Marginalia.File
import Marginalia.Json.Interchange
import Marginalia.Json.Reader

/-!
What users can set: how new annotations look, and how far documents are looked into.
-/

namespace Marginalia

structure Settings where
  fontFamily : String
  fontSize : Nat
  color : Color
  bold : Bool
  sampleLimit : Nat
  maxNesting : Nat
  /-- Fonts in place of those the program knows itself. -/
  fonts : Option FontChain

namespace Settings

def default : Settings where
  fontFamily := Mark.defaultFontFamily
  fontSize := Mark.defaultFontSize
  color := .black
  bold := false
  sampleLimit := File.defaultSample
  maxNesting := defaultFormNesting
  fonts := none

/-- A new annotation as the settings have it. One that marks text up keeps the colour of its kind. -/
def mark (s : Settings) (kind : MarkKind) (page : Nat) (box : ViewerBox Float) : Mark Float :=
  let m := Mark.new kind page box ""
  { m with
    fontFamily := s.fontFamily
    fontSize := s.fontSize
    bold := s.bold
    color := if kind = .freeText then s.color else m.color }

def saveOptions (s : Settings) (scale : Float) : SaveOptions Float :=
  ⟨scale, s.fonts.getD .default⟩

open Json Interchange

def toJson (s : Settings) : Json :=
  ofEntries [("font_family", ofString s.fontFamily), ("font_size", ofNat s.fontSize),
    ("color", ofColor s.color), ("bold", .bool s.bold), ("sample_limit", ofNat s.sampleLimit),
    ("max_form_depth", ofNat s.maxNesting),
    ("fonts", match s.fonts with | some chain => ofFontChain chain | none => .null)]

/-- Settings, of which any may be left out. -/
def ofJson? (v : Json) : Option Settings := do
  let fs ← record? ["font_family", "font_size", "color", "bold", "sample_limit", "max_form_depth",
    "fonts"] v
  return {
    fontFamily := ← fs.optional "font_family" string? default.fontFamily
    fontSize := ← fs.optional "font_size" (nat? 32) default.fontSize
    color := ← fs.optional "color" color? default.color
    bold := ← fs.optional "bold" bool? default.bold
    sampleLimit := ← fs.optional "sample_limit" (nat? 64) default.sampleLimit
    maxNesting := ← fs.optional "max_form_depth" (nat? 64) default.maxNesting
    fonts := ← fs.optional "fonts" fonts? none }
where
  fonts? : Json → Option (Option FontChain)
    | .null => some none
    | v => (fontChain? 1 v).map some

/-- The settings in a file, if it holds any. -/
def ofFile? (file : Bytes) : Option Settings := do
  let cs ← Utf8.decode? file
  ofJson? (← Json.parse? (String.ofList cs))

end Settings

end Marginalia
