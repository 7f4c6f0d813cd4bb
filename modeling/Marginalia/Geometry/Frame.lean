import Marginalia.Geometry.Box

/-!
The crossing between page points and viewer pixels. A page shows the part of its plane that its
frame gives; the vertical axis is flipped, and the scale is applied once in each direction.
-/

namespace Marginalia

/-- The visible part of a page: its lower left corner and its height, in points. -/
structure PageFrame (α : Type) where
  left : α
  bottom : α
  height : α

namespace Resolution

variable {α : Type} [Scalar α]

def pointsPerInch : α := ((72 : Nat) : α)

def pixelsPerInch : α := ((96 : Nat) : α)

def toPixels (points : α) : α := points * (pixelsPerInch / pointsPerInch)

def toPoints (pixels : α) : α := pixels * (pointsPerInch / pixelsPerInch)

/-- The largest font size, in pixels, that can be stored. -/
def maxFontPixels : Int := 4294967295

/-- A font size in whole pixels, rounded and never negative. -/
def fontPixels (points : α) : Nat :=
  ((Scalar.exact (toPixels points)).roundWithin 0 maxFontPixels).toNat

def fontPoints (pixels : Nat) : α := toPoints (pixels : α)

end Resolution

namespace PageFrame

variable {α : Type} [Scalar α]

open Resolution

def top (f : PageFrame α) : α := f.bottom + f.height

/-- A point of the page, in viewer pixels. -/
def toViewer (f : PageFrame α) (x y : α) : α × α :=
  (toPixels (x - f.left), toPixels ((f.height + f.bottom) - y))

/-- A point of the viewer, in page points. -/
def toPage (f : PageFrame α) (x y : α) : α × α :=
  (f.left + toPoints x, f.top - toPoints y)

def rectToPage (f : PageFrame α) (b : ViewerBox α) : PageRect α :=
  let b := b.normalized
  let (left, top) := f.toPage b.x b.y
  let (right, bottom) := f.toPage b.right b.bottom
  PageRect.ofCorners left bottom right top

def rectToViewer (f : PageFrame α) (r : PageRect α) : ViewerBox α :=
  let (x₁, y₁) := f.toViewer r.left r.top
  let (x₂, y₂) := f.toViewer r.right r.bottom
  ViewerBox.ofCorners x₁ y₁ x₂ y₂

end PageFrame

end Marginalia
