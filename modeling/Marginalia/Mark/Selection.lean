import Marginalia.Mark.Basic
import Marginalia.Graphics.Machine
import Marginalia.Text.Lower

/-!
Picking runs with a drag and with a query, and the annotations made from what was picked.
-/

namespace Marginalia

namespace Selection

variable {α : Type} [Scalar α]

/-- The visible runs that a drag in any direction touches. -/
def select (runs : List (TextRun α)) (drag : ViewerBox α) : List (TextRun α) :=
  let drag := drag.normalized
  runs.filter fun run => run.box.isVisible && run.box.intersects drag

/-- Top to bottom, then left to right. -/
def readsBefore (a b : TextRun α) : Bool :=
  if Scalar.precedes a.box.y b.box.y then
    if Scalar.precedes b.box.y a.box.y then Scalar.precedes a.box.x b.box.x else true
  else false

/-- The texts in reading order with single spaces between them. -/
def text (runs : List (TextRun α)) : String :=
  " ".intercalate ((runs.mergeSort readsBefore).map TextRun.text)

/-- The height of the bands that runs are grouped into lines by, in pixels. -/
def bandHeight : α := ((10 : Nat) : α)

/-- The number of the band that a run starts in. -/
def band (run : TextRun α) : Int :=
  (Scalar.exact (run.box.y / bandHeight)).floorWithin (-9223372036854775808) 9223372036854775807

/-- One line of a selection: its band, the box around it so far and its runs, the latest first. -/
structure Line (α : Type) where
  band : Int
  box : ViewerBox α
  members : List (TextRun α)

/-- Puts a run into the line of its band, opening the line if there is none. -/
def addRun (run : TextRun α) : List (Line α) → List (Line α)
  | [] => [⟨band run, run.box.normalized, [run]⟩]
  | l :: rest =>
    if band run < l.band then ⟨band run, run.box.normalized, [run]⟩ :: l :: rest
    else if band run = l.band then
      { l with box := l.box.union run.box, members := run :: l.members } :: rest
    else l :: addRun run rest

/-- The lines of a selection from top to bottom. -/
def lines (runs : List (TextRun α)) : List (Line α) :=
  runs.foldl (fun ls run => addRun run ls) []

/-- One annotation for each line, around all its runs and with their text. -/
def marks (runs : List (TextRun α)) (kind : MarkKind) (page : Nat) :
    List (Mark α) :=
  (lines runs).map fun l => Mark.new kind page l.box (text l.members.reverse)

/-- The runs whose text holds the query, whatever the case. A blank query finds nothing. -/
def search (runs : List (TextRun α)) (query : String) : List (TextRun α) :=
  let needle := Unicode.lowerChars (Unicode.trimChars query.toList)
  if needle.isEmpty then []
  else runs.filter fun run => containsRow needle (Unicode.lowerChars run.text.toList)

end Selection

end Marginalia
