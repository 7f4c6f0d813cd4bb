import Marginalia.Content.Grammar
import Marginalia.Document.PageTree
import Marginalia.Filter.Decode
import Marginalia.Font.WinAnsi
import Marginalia.Graphics.Extraction
import Marginalia.Text.Lower

/-!
What the names in a content program stand for: the resources of its page or form, the forms that it
invokes, and how its fonts encode text.
-/

namespace Marginalia

namespace Document

variable {α : Type}

/-- The resources that names are looked up in. -/
def resources? (d : Document α) : Scope → Option (Dict α)
  | .page id => do (← d.inherited? (← d.getDict? id) "Resources").dict?
  | .form id => do
    let (entries, _) ← d.getStream? id
    (d.deref (← entries.get? "Resources")).dict?
  | .nothing => none

/-- A copy of the resources of a page. -/
def pageResources (d : Document α) (page : ObjectId) : Dict α :=
  (d.resources? (.page page)).getD []

/-- The entry of a name in a category of resources. -/
def resource? (d : Document α) (scope : Scope) (category : String) (name : Bytes) :
    Option (Object α) := do
  let resources ← d.resources? scope
  let entries ← (d.deref (← resources.get? category)).dict?
  entries.find? name

def font? (d : Document α) (scope : Scope) (key : Bytes) : Option (Dict α) := do
  (d.deref (← d.resource? scope "Font" key)).dict?

/-- How the strings shown in a font are read. -/
inductive TextEncoding where
  | twoByte
  | winAnsi
  | unknown
deriving DecidableEq, Repr

/-- The encoding of a font, which only a name tells. The maps from two-byte codes are recognised by a
part of their names. -/
def fontEncoding (d : Document α) (font : Dict α) : TextEncoding :=
  match (font.get? "Encoding").bind fun v => (d.deref v).name? with
  | some name =>
    if ["Identity", "UCS2", "UTF16"].any fun part => containsRow (Syntax.ascii part) name then .twoByte
    else if name == Syntax.ascii "WinAnsiEncoding" && !font.hasName "Subtype" "Type0" then .winAnsi
    else .unknown
  | none => .unknown

/-- Whether a text has something in it besides substitutes and NUL. -/
def isMeaningful (cs : List Char) : Bool :=
  cs.any fun c => c != '\uFFFD' && c.toNat != 0

/-- The text of bytes in an encoding; what makes no sense in two-byte codes is read like any string. -/
def decodeShown (encoding : TextEncoding) (bytes : Bytes) : String :=
  match encoding with
  | .twoByte =>
    let text := Utf16.decode bytes
    if 2 ≤ bytes.length && bytes.length % 2 = 0 && isMeaningful text then String.ofList text
    else TextString.decode bytes
  | .winAnsi => String.ofList (WinAnsi.decode bytes)
  | .unknown => TextString.decode bytes

/-- The text of bytes shown in the font of a key. -/
def shownText (d : Document α) (scope : Scope) (key bytes : Bytes) : String :=
  match d.font? scope key with
  | some font => decodeShown (d.fontEncoding font) bytes
  | none => TextString.decode bytes

variable [Scalar α]

/-- The form of a name. It has resources of its own, or else those of the program that invokes it. -/
def form? (d : Document α) (scope : Scope) (name : Bytes) : Option (Form α) := do
  let id ← (← d.resource? scope "XObject" name).ref?
  let (entries, data) ← d.getStream? id
  if !entries.hasName "Subtype" "Form" then none
  else
    let content ← StreamData.plain? entries data
    let matrix := do
      let items ← (d.deref (← entries.get? "Matrix")).array?
      Matrix.ofOperands? (items.map fun v => Operand.ofObject (d.deref v))
    return { id, content, matrix, scope := if entries.has "Resources" then .form id else scope }

/-- What content programs need from the document. -/
def resolver (d : Document α) : Resolver α where
  form := d.form?
  text := d.shownText
  operations := decodeOperations

end Document

end Marginalia
