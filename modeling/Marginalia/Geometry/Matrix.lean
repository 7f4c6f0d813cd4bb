import Marginalia.Content.Operand

/-!
Affine maps of the plane in row-vector convention: a point is taken to `[x y 1] * M`.
-/

namespace Marginalia

/-- The matrix with rows `a b`, `c d` and offset `e f`. -/
structure Matrix (α : Type) where
  a : α
  b : α
  c : α
  d : α
  e : α
  f : α

namespace Matrix

variable {α : Type} [Scalar α]

open Scalar

def identity : Matrix α := ⟨one, zero, zero, one, zero, zero⟩

instance : Inhabited (Matrix α) := ⟨identity⟩

def shift (tx ty : α) : Matrix α := ⟨one, zero, zero, one, tx, ty⟩

/-- The map that applies `m` first and `n` after it. -/
def multiply (m n : Matrix α) : Matrix α where
  a := m.a * n.a + m.b * n.c
  b := m.a * n.b + m.b * n.d
  c := m.c * n.a + m.d * n.c
  d := m.c * n.b + m.d * n.d
  e := m.e * n.a + m.f * n.c + n.e
  f := m.e * n.b + m.f * n.d + n.f

/-- The length of the image of the unit vector along y. -/
def verticalScale (m : Matrix α) : α :=
  sqrt (m.c * m.c + m.d * m.d)

/-- Six numbers, however many operands follow them. -/
def ofOperands? : List (Operand α) → Option (Matrix α)
  | a :: b :: c :: d :: e :: f :: _ => do
    return ⟨← a.number?, ← b.number?, ← c.number?, ← d.number?, ← e.number?, ← f.number?⟩
  | _ => none

end Matrix

end Marginalia
