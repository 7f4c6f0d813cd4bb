import Marginalia.Number.Shortest

/-!
The arithmetic that geometry and extraction are written over. Everything downstream is generic in
the number type, so that the same definitions run on machine floats and can be studied over exact
rationals, where rounding to single precision is the identity.
-/

namespace Marginalia

/-- The exact value behind a number: not a number, infinite, or a rational. A finite value carries
its sign apart, since a zero may be negative. -/
inductive Extended where
  | nan
  | infinite (negative : Bool)
  | finite (negative : Bool) (value : Rat)
deriving DecidableEq, Repr

namespace Extended

/-- The greatest integer not above the value, clamped to a range; no number at all gives zero. -/
def floorWithin (lo hi : Int) : Extended → Int
  | nan => 0
  | infinite true => lo
  | infinite false => hi
  | finite _ q => max lo (min hi q.floor)

/-- The nearest integer, halves away from zero, clamped to a range; no number at all gives zero. -/
def roundWithin (lo hi : Int) : Extended → Int
  | nan => 0
  | infinite true => lo
  | infinite false => hi
  | finite _ q =>
    let n : Int := roundDiv .away q.num.natAbs q.den
    max lo (min hi (if q < 0 then -n else n))

/-- The integer that the value is, if it is one. -/
def integer? : Extended → Option Int
  | finite _ q => if q.den = 1 then some q.num else none
  | _ => none

def isFinite : Extended → Bool
  | finite .. => true
  | _ => false

/-- Rank in the total order: negative infinity, the finite values with `-0` before `0`, infinity,
and last what is no number. -/
def precedes : Extended → Extended → Bool
  | nan, nan => true
  | nan, _ => false
  | _, nan => true
  | infinite true, _ => true
  | _, infinite false => true
  | finite n p, finite m q => p < q || (p == q && (n || !m))
  | _, _ => false

end Extended

/-- The arithmetic of a number type. `narrow` rounds to single precision; `exact` gives the value
that comparisons, floors and printed digits are computed from; `numeral` is what a finite number is
written as in a document, and `ofDecimalNarrow` what is read there. -/
class Scalar (α : Type) extends Add α, Sub α, Mul α, Div α, Neg α, LT α, LE α, NatCast α,
    IntCast α where
  decidableLT : DecidableLT α
  decidableLE : DecidableLE α
  sqrt : α → α
  narrow : α → α
  ofDecimal : Decimal → α
  ofDecimalNarrow : Decimal → α
  numeral : α → Option Decimal
  exact : α → Extended

namespace Scalar

variable {α : Type} [Scalar α]

instance : DecidableLT α := Scalar.decidableLT

instance : DecidableLE α := Scalar.decidableLE

instance : Inhabited α := ⟨((0 : Nat) : α)⟩

def zero : α := ((0 : Nat) : α)

def one : α := ((1 : Nat) : α)

/-- The decimal constant `digits / 10 ^ places`. -/
def constant (digits places : Nat) : α :=
  ofDecimal ⟨false, digits, -(places : Int)⟩

/-- Whether the value compares with itself, which only a number does. -/
def isNumber (x : α) : Bool := decide (x ≤ x)

def isFinite (x : α) : Bool := (exact x).isFinite

/-- The lesser of two values; one that is no number is passed over. -/
def lesser (x y : α) : α :=
  if isNumber x then if isNumber y then if x ≤ y then x else y else x else y

/-- The greater of two values; one that is no number is passed over. -/
def greater (x y : α) : α :=
  if isNumber x then if isNumber y then if x ≤ y then y else x else x else y

def absolute (x : α) : α :=
  if x ≤ zero then zero - x else x

/-- Ties between values that print alike but differ in the sign of zero are settled too. -/
def precedes (x y : α) : Bool := (exact x).precedes (exact y)

/-- Equality of numbers, under which the two zeros are equal. -/
def same (x y : α) : Bool := decide (x ≤ y) && decide (y ≤ x)

/-- The value with a set number of decimal places. -/
def fixed (places : Nat) (x : α) : String :=
  match exact x with
  | .nan => "NaN"
  | .infinite true => "-inf"
  | .infinite false => "inf"
  | .finite negative q => (Decimal.ofRat places negative q).positional

end Scalar

namespace MachineFloat

/-- Sign, significand and exponent of a finite double, from its bits. -/
def exact (x : Float) : Extended :=
  let bits := x.toBits.toNat
  let negative := bits / 2 ^ 63 = 1
  let field := bits / 2 ^ 52 % 2 ^ 11
  let fraction := bits % 2 ^ 52
  if field = 2047 then
    if fraction = 0 then .infinite negative else .nan
  else
    let m := if field = 0 then fraction else fraction + 2 ^ 52
    let e : Int := (max field 1 : Nat) - 1075
    let q : Rat := if 0 ≤ e then ((m * 2 ^ e.toNat : Nat) : Rat) else mkRat m (2 ^ (-e).toNat)
    .finite negative (if negative then -q else q)

/-- Powers of ten beyond which every numeral overflows or vanishes. -/
def exponentLimit : Int := 400

/-- The order of magnitude of a numeral, clamped so that no huge power is ever computed. -/
def clamped (d : Decimal) : Decimal :=
  let size : Int := (Decimal.digitsOf d.digits).length
  if d.digits = 0 then ⟨d.negative, 0, 0⟩
  else if exponentLimit < d.exponent + size then ⟨d.negative, 1, exponentLimit⟩
  else if d.exponent + size < -exponentLimit then ⟨d.negative, 0, 0⟩
  else d

def ofDecimal (d : Decimal) : Float :=
  let d := clamped d
  let x := Float.ofScientific d.digits (d.exponent < 0) d.exponent.natAbs
  if d.negative then -x else x

def ofDecimalNarrow (d : Decimal) : Float :=
  let d := clamped d
  let x := (Float32.ofScientific d.digits (d.exponent < 0) d.exponent.natAbs).toFloat
  if d.negative then -x else x

/-- The shortest numeral that reads back in single precision. -/
def numeral (x : Float) : Option Decimal :=
  match exact x with
  | .finite negative q => some (Shortest.ofRat .single .away negative q)
  | _ => none

instance : Scalar Float where
  natCast := Float.ofNat
  intCast := Float.ofInt
  decidableLT := inferInstance
  decidableLE := inferInstance
  sqrt := Float.sqrt
  narrow x := x.toFloat32.toFloat
  ofDecimal := ofDecimal
  ofDecimalNarrow := ofDecimalNarrow
  numeral := numeral
  exact := exact

end MachineFloat

end Marginalia
