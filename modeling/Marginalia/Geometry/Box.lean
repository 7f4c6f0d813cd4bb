import Marginalia.Number.Scalar

/-!
Rectangles in the two spaces: boxes of the viewer, given by a corner and extents of any sign, and
rectangles of the page, given by their four sides.
-/

namespace Marginalia

/-- A box in viewer pixels, with the origin at the top left. -/
structure ViewerBox (α : Type) where
  x : α
  y : α
  width : α
  height : α

/-- A rectangle in page points, with the origin at the bottom left. -/
structure PageRect (α : Type) where
  left : α
  bottom : α
  right : α
  top : α

namespace ViewerBox

variable {α : Type} [Scalar α]

open Scalar

/-- The box between two corners, whichever they are. -/
def ofCorners (x₁ y₁ x₂ y₂ : α) : ViewerBox α :=
  ⟨lesser x₁ x₂, lesser y₁ y₂, absolute (x₂ - x₁), absolute (y₂ - y₁)⟩

def right (b : ViewerBox α) : α := b.x + b.width

def bottom (b : ViewerBox α) : α := b.y + b.height

/-- The same box with extents that are not negative. -/
def normalized (b : ViewerBox α) : ViewerBox α :=
  ofCorners b.x b.y b.right b.bottom

/-- Whether the boxes share a point, their edges included. -/
def intersects (a b : ViewerBox α) : Bool :=
  let a := a.normalized
  let b := b.normalized
  decide (a.x ≤ b.right) && decide (b.x ≤ a.right) && decide (a.y ≤ b.bottom) &&
    decide (b.y ≤ a.bottom)

/-- The smallest box that holds both. -/
def union (a b : ViewerBox α) : ViewerBox α :=
  let a := a.normalized
  let b := b.normalized
  ofCorners (lesser a.x b.x) (lesser a.y b.y) (greater a.right b.right) (greater a.bottom b.bottom)

def area (b : ViewerBox α) : α := absolute (b.width * b.height)

/-- A box of no area cannot be selected. -/
def isVisible (b : ViewerBox α) : Bool := decide (zero < b.area)

/-- Coordinates taken at a zoom factor, brought back to it being one. -/
def unscaled (b : ViewerBox α) (scale : α) : ViewerBox α :=
  let b := b.normalized
  ⟨b.x / scale, b.y / scale, b.width / scale, b.height / scale⟩

end ViewerBox

namespace PageRect

variable {α : Type} [Scalar α]

open Scalar

/-- The rectangle between two corners, whichever they are. -/
def ofCorners (x₁ y₁ x₂ y₂ : α) : PageRect α :=
  ⟨lesser x₁ x₂, lesser y₁ y₂, greater x₁ x₂, greater y₁ y₂⟩

def width (r : PageRect α) : α := r.right - r.left

def height (r : PageRect α) : α := r.top - r.bottom

/-- The corners: top left, top right, bottom left, bottom right. -/
def quadPoints (r : PageRect α) : List α :=
  [r.left, r.top, r.right, r.top, r.left, r.bottom, r.right, r.bottom]

end PageRect

end Marginalia
