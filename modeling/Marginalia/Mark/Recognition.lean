import Marginalia.Mark.Basic
import Marginalia.Graphics.Machine
import Marginalia.Document.Error
import Marginalia.Text.Blank

/-!
Text recognised on page images: the images themselves, where the text of a page came from, and the
annotations that carry recognised text.
-/

namespace Marginalia

/-- A decoded image of four bytes for each pixel. -/
structure RasterImage where
  width : UInt32
  height : UInt32
  data : Bytes

namespace RasterImage

/-- The number of bytes that an image of a size needs, as a word. -/
def byteCount (width height : UInt32) : UInt64 := width.toUInt64 * height.toUInt64 * 4

/-- An image whose data has exactly the bytes that its size needs. -/
def new (width height : UInt32) (data : Bytes) : Except DocumentError RasterImage :=
  let expected := (byteCount width height).toNat
  if data.length = expected then .ok ⟨width, height, data⟩
  else .error (.ocr ("raster of " ++ toString width ++ "x" ++ toString height ++ " needs " ++
    toString expected ++ " bytes, got " ++ toString data.length))

/-- The image in one line, its data as a count. -/
def summary (i : RasterImage) : String :=
  "RasterImage \x7b width: " ++ toString i.width ++ ", height: " ++ toString i.height ++
    ", bytes: " ++ toString i.data.length ++ " \x7d"

end RasterImage

/-- The text of a page, drawn by its content or recognised on its image. -/
inductive PageText (α : Type) where
  | drawn (runs : List (TextRun α))
  | recognised (runs : List (TextRun α))

namespace PageText

variable {α : Type}

def runs : PageText α → List (TextRun α)
  | drawn rs => rs
  | recognised rs => rs

def isRecognised : PageText α → Bool
  | drawn _ => false
  | recognised _ => true

end PageText

/-- Recognised runs as annotations, the blank ones left out. -/
def ocrMarks {α : Type} [Scalar α] (runs : List (TextRun α)) (page : Nat) :
    List (Mark α) :=
  (runs.filter fun run => !Unicode.isBlank run.text).map fun run =>
    { Mark.new .ocrText page run.box run.text with fontSize := Mark.ocrFontSize }

end Marginalia
