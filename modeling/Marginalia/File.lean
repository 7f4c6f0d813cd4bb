import Marginalia.Document.PageRemoval
import Marginalia.Document.Printer
import Marginalia.Document.Reader
import Marginalia.Mark.Reader
import Marginalia.Mark.Writer

/-!
What can be done with a document in a file. Each operation reads the file anew, and one that changes
the document gives the bytes of a new file.
-/

namespace Marginalia

namespace File

def document (file : Bytes) : Except DocumentError (Document Float) := Document.ofFile file

def pageCount (file : Bytes) : Except DocumentError Nat := do
  return (← document file).pageCount

/-- The runs of a page, of which there are none if file or page cannot be read. -/
def text (file : Bytes) (page nesting : Nat) : List (TextRun Float) :=
  match document file with
  | .ok d => d.pageText page nesting
  | .error _ => []

/-- Whether one of the first pages shows text. A file that cannot be read shows none. -/
def isSearchable (file : Bytes) (sample : Nat) : Bool :=
  match document file with
  | .ok d => d.hasTextLayer sample
  | .error _ => false

def marks (file : Bytes) : Except DocumentError (List (Mark Float)) := do
  return (← document file).marks

/-- The file with exactly these annotations. -/
def save (file : Bytes) (o : SaveOptions Float) (ms : List (Mark Float)) :
    Except DocumentError Bytes := do
  return (← (← document file).save o ms).print

/-- The file without annotations, or the file itself if none can be made. -/
def strip (file : Bytes) : Bytes :=
  match save file .default [] with
  | .ok stripped => stripped
  | .error _ => file

def deletePage (file : Bytes) (page : Nat) : Except DocumentError Bytes := do
  return (← (← document file).deletePage page).print

/-- How many pages decide whether a document shows text at all. -/
def defaultSample : Nat := 3

/-- The text of a page: what its content draws, or what is recognised on it if that shows nothing. -/
def textOrRecognised (file : Bytes) (page nesting : Nat)
    (recognise : Except DocumentError (List (TextRun Float))) :
    Except DocumentError (PageText Float) := do
  let count ← pageCount file
  if page = 0 || count < page then .error (.pageOutOfRange page count)
  else
    let drawn := text file page nesting
    if isSearchable file defaultSample && drawn.any fun run => run.box.isVisible then
      return .drawn drawn
    else return .recognised (← recognise)

end File

end Marginalia
