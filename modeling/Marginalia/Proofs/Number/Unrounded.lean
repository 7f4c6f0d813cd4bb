import Mathlib.Tactic.Ring
import Marginalia.Graphics.State
import Marginalia.Geometry.Frame
import Marginalia.Proofs.Number.Exact

/-!
Numbers that are calculated with without rounding. They add and multiply as a commutative ring does, and
nothing is asked of their square roots, so that what is shown for them holds whatever stands in for a root.
-/

namespace Marginalia

/-- Numbers whose sums and products are exact. The square root may be any function. -/
class Unrounded (α : Type) extends Scalar α, CommRing α

namespace Unrounded

/-- The rationals are such numbers, whatever numerals they are written with. -/
scoped instance {N : Numerals} : Unrounded (Exact N) :=
  { (inferInstance : Scalar (Exact N)), (inferInstance : CommRing (Exact N)) with }

variable {α : Type} [Unrounded α]

theorem zero_eq : (Scalar.zero : α) = 0 := Nat.cast_zero

theorem one_eq : (Scalar.one : α) = 1 := Nat.cast_one

theorem toPixels_add (x y : α) :
    Resolution.toPixels (x + y) = Resolution.toPixels x + Resolution.toPixels y :=
  add_mul _ _ _

theorem toPixels_sub (x y : α) :
    Resolution.toPixels (x - y) = Resolution.toPixels x - Resolution.toPixels y :=
  sub_mul _ _ _

theorem toPixels_zero : Resolution.toPixels (0 : α) = 0 := zero_mul _

end Unrounded

namespace Matrix

variable {α : Type} [Unrounded α]

theorem shift_eq (tx ty : α) : shift tx ty = ⟨1, 0, 0, 1, tx, ty⟩ := by
  simp only [shift, Unrounded.one_eq, Unrounded.zero_eq]

theorem multiply_assoc (m n k : Matrix α) : (m.multiply n).multiply k = m.multiply (n.multiply k) := by
  simp only [multiply, mk.injEq]
  refine ⟨?_, ?_, ?_, ?_, ?_, ?_⟩ <;> ring

/-- A shift behind a map moves the image of every point by as much. -/
theorem multiply_shift (m : Matrix α) (tx ty : α) :
    m.multiply (shift tx ty) = { m with e := m.e + tx, f := m.f + ty } := by
  simp [multiply, shift_eq]

/-- A shift in front of a map moves the point that the origin is taken to. -/
theorem shift_multiply (m : Matrix α) (tx ty : α) :
    (shift tx ty).multiply m =
      { m with e := tx * m.a + ty * m.c + m.e, f := tx * m.b + ty * m.d + m.f } := by
  simp [multiply, shift_eq]

end Matrix

end Marginalia
