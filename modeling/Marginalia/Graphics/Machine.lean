import Marginalia.Graphics.Command
import Marginalia.Graphics.State
import Marginalia.Geometry.Frame

/-!
Running a content program: every shown text becomes one run, placed in the viewer, and a form is run
inside the program that invokes it, on states saved above a floor that it cannot pass.
-/

namespace Marginalia

/-- A text shown on a page and the box that it takes up in the viewer. -/
structure TextRun (α : Type) where
  text : String
  box : ViewerBox α

/-- Where the names of fonts and forms are looked up. -/
inductive Scope where
  | page (id : ObjectId)
  | form (id : ObjectId)
  | nothing
deriving DecidableEq, Repr

/-- A form ready to be run. -/
structure Form (α : Type) where
  id : ObjectId
  content : Bytes
  matrix : Option (Matrix α)
  scope : Scope

/-- What a program needs from the document around it. -/
structure Resolver (α : Type) where
  form : Scope → Bytes → Option (Form α)
  text : Scope → Bytes → Bytes → String
  operations : Bytes → List (Operation α)

/-- The state of a running program. Forms under way are in `chain`, the innermost first; no state
saved beneath `floor` is restored; runs are kept latest first. -/
structure Machine (α : Type) where
  stack : GraphicsStack α
  floor : Nat
  chain : List ObjectId
  drawn : List (TextRun α)

namespace Machine

variable {α : Type} [Scalar α]

open Scalar GraphicsState

def initial : Machine α := ⟨.initial, 0, [], []⟩

def modify (s : Machine α) (f : GraphicsState α → GraphicsState α) : Machine α :=
  { s with stack := s.stack.modify f }

/-- The size at which text is drawn, unless the map in force flattens it. -/
def drawnSize (state : GraphicsState α) (effective : Matrix α) : α :=
  let scale := effective.verticalScale
  if zero < scale then state.fontSize * scale else state.fontSize

/-- The run that a text of so many characters makes in a state. -/
def runOf (frame : PageFrame α) (state : GraphicsState α) (text : String) (count : Nat) :
    TextRun α :=
  let effective := state.textMatrix.multiply state.ctm
  let size := drawnSize state effective
  let (x, top) := frame.toViewer effective.e effective.f
  ⟨text, x, top - Resolution.toPixels size,
    Resolution.toPixels ((count : α) * size * glyphRatio * state.horizontalScaling),
    Resolution.toPixels size⟩

/-- Draws a text at the pen and moves the pen behind it. An empty text draws nothing. -/
def emit (frame : PageFrame α) (s : Machine α) (text : String) : Machine α :=
  if text.isEmpty then s
  else
    let state := s.stack.current
    let count := text.length
    let advance := (count : α) * state.fontSize * glyphRatio * state.horizontalScaling
    { s.modify (·.advancePen advance) with drawn := runOf frame state text count :: s.drawn }

/-- Reads shown bytes with the current font. -/
def decoded (r : Resolver α) (scope : Scope) (s : Machine α) (bytes : Bytes) : String :=
  r.text scope s.stack.current.fontKey bytes

/-- Restores the latest saved state above the floor. -/
def restore (s : Machine α) : Machine α :=
  if s.floor < s.stack.depth then { s with stack := s.stack.restore } else s

/-- Carries out a command, `invoke` being what runs forms. -/
def perform (r : Resolver α) (frame : PageFrame α)
    (invoke : Scope → Bytes → Machine α → Machine α) (scope : Scope) (s : Machine α) :
    Command α → Machine α
  | .save => { s with stack := s.stack.save }
  | .restore => s.restore
  | .concat m => s.modify (·.concat m)
  | .beginText => s.modify (·.beginText)
  | .endText => s
  | .selectFont key size => s.modify fun g => { g with fontKey := key, fontSize := size }
  | .setTextMatrix m => s.modify (·.setTextMatrix m)
  | .moveLine tx ty => s.modify (·.nextLine tx ty)
  | .moveLineWithLeading tx ty =>
    s.modify fun g => { g with leading := some (-ty) }.nextLine tx ty
  | .setLeading leading => s.modify fun g => { g with leading := some leading }
  | .advanceLine => s.modify (·.advanceLine)
  | .setScaling percent =>
    s.modify fun g => { g with horizontalScaling := percent / ((100 : Nat) : α) }
  | .show_ bytes => s.emit frame (s.decoded r scope bytes)
  | .showOnNextLine bytes =>
    let s := s.modify (·.advanceLine)
    s.emit frame (s.decoded r scope bytes)
  | .showPieces pieces => s.emit frame (String.join (pieces.map (s.decoded r scope)))
  | .invoke name => invoke scope name s

/-- Runs one operation; without a command it changes nothing. -/
def step (r : Resolver α) (frame : PageFrame α)
    (invoke : Scope → Bytes → Machine α → Machine α) (scope : Scope) (s : Machine α)
    (op : Operation α) : Machine α :=
  match Command.ofOperation? op with
  | some c => s.perform r frame invoke scope c
  | none => s

/-- Prepares a form: saves the state, raises the floor to it and applies the form's own map. -/
def enter (s : Machine α) (form : Form α) : Machine α :=
  let stack := s.stack.save
  let stack := match form.matrix with
    | some m => stack.modify (·.concat m)
    | none => stack
  { s with stack, floor := stack.depth, chain := form.id :: s.chain }

/-- Leaves a form: drops what it left saved and restores the state saved on entering. -/
def leave (s : Machine α) (entered outer : Machine α) : Machine α :=
  { s with
    stack := (s.stack.restoreTo entered.floor).restore
    floor := outer.floor
    chain := s.chain.tail }

/-- Runs the form of a name, at most `nesting` forms deep. A form never runs inside itself. -/
def invoke (r : Resolver α) (frame : PageFrame α) :
    Nat → Scope → Bytes → Machine α → Machine α
  | 0, _, _, s => s
  | nesting + 1, scope, name, s =>
    match r.form scope name with
    | none => s
    | some form =>
      if s.chain.contains form.id then s
      else
        let entered := s.enter form
        let done := (r.operations form.content).foldl
          (step r frame (invoke r frame nesting) form.scope) entered
        done.leave entered s

/-- Runs one operation of a page's own program. -/
def run (r : Resolver α) (frame : PageFrame α) (nesting : Nat) (scope : Scope) (s : Machine α)
    (op : Operation α) : Machine α :=
  s.step r frame (invoke r frame nesting) scope op

/-- Runs a whole program from a state. -/
def runAll (r : Resolver α) (frame : PageFrame α) (nesting : Nat) (scope : Scope)
    (ops : List (Operation α)) (s : Machine α) : Machine α :=
  ops.foldl (run r frame nesting scope) s

/-- All runs in the order drawn. -/
def runs (s : Machine α) : List (TextRun α) := s.drawn.reverse

end Machine

end Marginalia
