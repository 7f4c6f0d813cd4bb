import Marginalia.Geometry.Matrix

/-!
The graphics state of a content program and the stack that `q` and `Q` drive.
-/

namespace Marginalia

/-- What the operators set. The leading is unset until an operator gives it; the horizontal scaling
is a factor. -/
structure GraphicsState (α : Type) where
  ctm : Matrix α
  textMatrix : Matrix α
  lineMatrix : Matrix α
  fontSize : α
  fontKey : Bytes
  leading : Option α
  horizontalScaling : α

namespace GraphicsState

variable {α : Type} [Scalar α]

def initial : GraphicsState α :=
  ⟨.identity, .identity, .identity, Scalar.zero, [], none, Scalar.one⟩

/-- How far apart lines are, as a multiple of the font size, when no leading was set. -/
def leadingRatio : α := Scalar.constant 12 1

/-- The advance of a glyph, as a multiple of the font size. -/
def glyphRatio : α := Scalar.constant 6 1

def lineAdvance (s : GraphicsState α) : α :=
  match s.leading with
  | some l => l
  | none => s.fontSize * leadingRatio

/-- Applies a map in front of the current one. -/
def concat (s : GraphicsState α) (m : Matrix α) : GraphicsState α :=
  { s with ctm := m.multiply s.ctm }

def beginText (s : GraphicsState α) : GraphicsState α :=
  { s with textMatrix := .identity, lineMatrix := .identity }

def setTextMatrix (s : GraphicsState α) (m : Matrix α) : GraphicsState α :=
  { s with textMatrix := m, lineMatrix := m }

/-- Starts a line at an offset from the start of the line before. -/
def nextLine (s : GraphicsState α) (tx ty : α) : GraphicsState α :=
  let m := (Matrix.shift tx ty).multiply s.lineMatrix
  { s with lineMatrix := m, textMatrix := m }

/-- Moves down by one line. -/
def advanceLine (s : GraphicsState α) : GraphicsState α :=
  s.nextLine Scalar.zero (-s.lineAdvance)

/-- Moves the pen along its line. -/
def advancePen (s : GraphicsState α) (tx : α) : GraphicsState α :=
  { s with textMatrix := (Matrix.shift tx Scalar.zero).multiply s.textMatrix }

end GraphicsState

/-- The live state and the states saved beneath it, the latest first. -/
structure GraphicsStack (α : Type) where
  current : GraphicsState α
  saved : List (GraphicsState α)

namespace GraphicsStack

variable {α : Type}

def initial [Scalar α] : GraphicsStack α := ⟨.initial, []⟩

def depth (s : GraphicsStack α) : Nat := s.saved.length

def save (s : GraphicsStack α) : GraphicsStack α :=
  { s with saved := s.current :: s.saved }

/-- Takes back the latest saved state, if there is one. -/
def restore (s : GraphicsStack α) : GraphicsStack α :=
  match s.saved with
  | [] => s
  | state :: rest => ⟨state, rest⟩

/-- Restores until at most `depth` states remain saved. -/
def restoreTo (s : GraphicsStack α) (depth : Nat) : GraphicsStack α :=
  Nat.repeat restore (s.depth - depth) s

def modify (s : GraphicsStack α) (f : GraphicsState α → GraphicsState α) : GraphicsStack α :=
  { s with current := f s.current }

end GraphicsStack

end Marginalia
