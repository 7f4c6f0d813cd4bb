import Marginalia.Document.Store
import Marginalia.Font.WinAnsi

/-!
The fonts that text is written with. Nothing is embedded: Latin text has the standard fonts, and CJK
text the character collections that every viewer has.
-/

namespace Marginalia

inductive FontSource where
  /-- One of the standard fonts, in its plain and its bold form. -/
  | standard (family baseFont boldBaseFont : String)
  /-- A font of a character collection, its strings in two-byte code units. -/
  | cjk (family baseFont ordering : String) (supplement : Int) (encoding : String)
deriving DecidableEq, Repr

namespace FontSource

def family : FontSource → String
  | standard family .. => family
  | cjk family .. => family

def supportsChar : FontSource → Char → Bool
  | standard .., c => (WinAnsi.byte? c).isSome
  | cjk .., c => c.toNat ≤ 0xFFFF

/-- Whether the font can show every character of a text. -/
def supports (f : FontSource) (text : String) : Bool :=
  text.toList.all f.supportsChar

/-- The bytes that show a character; a question mark stands for one that the font does not have. -/
def encodeChar : FontSource → Char → Bytes
  | standard .., c => [(WinAnsi.byte? c).getD 0x3F]
  | cjk .., c => Utf16.unitBytes (if c.toNat ≤ 0xFFFF then c.toNat else 0x3F)

def encode (f : FontSource) (text : String) : Bytes :=
  text.toList.flatMap f.encodeChar

variable {α : Type}

def nameOfText (s : String) : Object α := .name (Utf8.encode s.toList)

def simpleFont (baseFont : Object α) : Dict α :=
  Dict.ofList [("Type", .nameOf "Font"), ("Subtype", .nameOf "Type1"), ("BaseFont", baseFont),
    ("Encoding", .nameOf "WinAnsiEncoding")]

/-- The dictionary of the font. The descriptor of a CJK font becomes an object of the document. -/
def dictionary (f : FontSource) (d : Document α) (bold : Bool) : Document α × Dict α :=
  match f with
  | standard _ baseFont boldBaseFont =>
    (d, simpleFont (nameOfText (if bold then boldBaseFont else baseFont)))
  | cjk _ baseFont ordering supplement encoding =>
    let cidName := if bold then baseFont ++ ",Bold" else baseFont
    let (d, descriptor) := d.add (.ofEntries [
      ("Type", .nameOf "FontDescriptor"),
      ("FontName", nameOfText cidName),
      ("Flags", .int 4),
      ("FontBBox", .array [.int 0, .int (-148), .int 1000, .int 880]),
      ("ItalicAngle", .int 0),
      ("Ascent", .int 880),
      ("Descent", .int (-120)),
      ("CapHeight", .int 880),
      ("StemV", .int (if bold then 160 else 93))])
    let descendant : Object α := .ofEntries [
      ("Type", .nameOf "Font"),
      ("Subtype", .nameOf "CIDFontType0"),
      ("BaseFont", nameOfText cidName),
      ("CIDSystemInfo", .ofEntries [
        ("Registry", .string (Syntax.ascii "Adobe") false),
        ("Ordering", .string (Utf8.encode ordering.toList) false),
        ("Supplement", .int supplement)]),
      ("FontDescriptor", .ref descriptor),
      ("DW", .int 1000)]
    (d, Dict.ofList [
      ("Type", .nameOf "Font"),
      ("Subtype", .nameOf "Type0"),
      ("BaseFont", nameOfText (cidName ++ "-" ++ encoding)),
      ("Encoding", nameOfText encoding),
      ("DescendantFonts", .array [descendant])])

end FontSource

end Marginalia
