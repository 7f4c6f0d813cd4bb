import Mathlib.Algebra.Order.Field.Rat
import Mathlib.Tactic.FieldSimp
import Mathlib.Tactic.Linarith
import Mathlib.Tactic.NormNum
import Mathlib.Tactic.Ring
import Marginalia.Graphics.State
import Marginalia.Geometry.Frame

/-!
Rational numbers as the numbers of the model. Nothing is rounded, so that what geometry and text
placement undo can be seen to be undone.
-/

namespace Marginalia

/-- How rational numbers are written in a document and read from it. A rational without a finite decimal
form has some long numeral for it, and numerals of a few places mean what they say. -/
structure Numerals where
  write : ℚ → Decimal
  read : Decimal → ℚ
  root : ℚ → ℚ
  places : Nat
  three_le_places : 3 ≤ places
  read_short : ∀ d : Decimal, -(places : Int) ≤ d.exponent → read d = d.value
  read_write : ∀ q, (write q).exponent < 0 → read (write q) = q
  write_whole : ∀ q, 0 ≤ (write q).exponent →
    ∃ n : Int, inWordRange n = true ∧ (write q).value = n ∧ q = n
  root_square : ∀ q, 0 ≤ q → root (q * q) = q

/-- The rationals, as the numbers of documents that are written with some numerals. -/
def Exact (_ : Numerals) : Type := ℚ

namespace Exact

variable {N : Numerals}

instance : Field (Exact N) := inferInstanceAs (Field ℚ)

instance : LinearOrder (Exact N) := inferInstanceAs (LinearOrder ℚ)

instance : IsStrictOrderedRing (Exact N) := inferInstanceAs (IsStrictOrderedRing ℚ)

instance : Scalar (Exact N) where
  decidableLT := fun a b => inferInstanceAs (Decidable (a < b))
  decidableLE := fun a b => inferInstanceAs (Decidable (a ≤ b))
  sqrt := N.root
  narrow x := x
  ofDecimal := N.read
  ofDecimalNarrow := N.read
  numeral q := some (N.write q)
  exact q := .finite (decide (q < 0)) q

@[simp]
theorem zero_eq : (Scalar.zero : Exact N) = 0 := Nat.cast_zero (R := ℚ)

@[simp]
theorem one_eq : (Scalar.one : Exact N) = 1 := Nat.cast_one (R := ℚ)

theorem isNumber_eq (x : Exact N) : Scalar.isNumber x = true := decide_eq_true (le_refl x)

@[simp]
theorem narrow_eq (x : Exact N) : Scalar.narrow x = x := rfl

@[simp]
theorem lesser_eq (x y : Exact N) : Scalar.lesser x y = min x y := by
  simp only [Scalar.lesser, isNumber_eq, if_true]
  exact (min_def x y).symm

@[simp]
theorem greater_eq (x y : Exact N) : Scalar.greater x y = max x y := by
  simp only [Scalar.greater, isNumber_eq, if_true]
  exact (max_def x y).symm

@[simp]
theorem absolute_eq (x : Exact N) : Scalar.absolute x = |x| := by
  unfold Scalar.absolute
  rw [zero_eq]
  split
  · rename_i h
    rw [zero_sub, abs_of_nonpos h]
  · rename_i h
    rw [abs_of_pos (not_le.mp h)]

theorem isFinite_eq (x : Exact N) : Scalar.isFinite x = true := rfl

theorem glyphRatio_eq : (GraphicsState.glyphRatio : Exact N) = 3 / 5 := by
  have hr : N.read ⟨false, 6, -1⟩ = (Decimal.mk false 6 (-1)).value :=
    N.read_short _ (by have := N.three_le_places; simp only; omega)
  have hv : (Decimal.mk false 6 (-1)).value = 3 / 5 := by decide +kernel
  exact hr.trans hv

@[simp]
theorem toPixels_eq (x : Exact N) : Resolution.toPixels x = x * (4 / 3) := by
  unfold Resolution.toPixels Resolution.pixelsPerInch Resolution.pointsPerInch
  norm_num

@[simp]
theorem toPoints_eq (x : Exact N) : Resolution.toPoints x = x * (3 / 4) := by
  unfold Resolution.toPoints Resolution.pixelsPerInch Resolution.pointsPerInch
  norm_num

theorem sqrt_one : Scalar.sqrt (1 : Exact N) = 1 := by
  have h := N.root_square 1 (by norm_num)
  rwa [one_mul] at h

end Exact

end Marginalia
