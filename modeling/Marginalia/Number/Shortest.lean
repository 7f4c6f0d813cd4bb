import Marginalia.Number.Decimal

/-!
The fewest decimal digits that read back to a given value of a binary floating-point format. The
candidates of each length are the two neighbours of the value on that decimal grid, and the first
length with a candidate inside the rounding interval wins.
-/

namespace Marginalia

/-- A binary floating-point format: how many significant bits, and the exponent of its least
positive value. -/
structure BinaryFormat where
  precision : Nat
  minExponent : Int
deriving DecidableEq, Repr

namespace BinaryFormat

def single : BinaryFormat := ⟨24, -149⟩

def double : BinaryFormat := ⟨53, -1074⟩

end BinaryFormat

namespace Shortest

/-- The greatest `k` with `2 ^ k * den ≤ num`. -/
def floorLog2 (num den : Nat) : Int :=
  let k : Int := (num.log2 : Int) - (den.log2 : Int)
  if num * 2 ^ (-k).toNat < den * 2 ^ k.toNat then k - 1 else k

/-- A quotient scaled by a power of ten of either sign. -/
def scaled (num den : Nat) (power : Int) : Nat × Nat :=
  (num * 10 ^ power.toNat, den * 10 ^ (-power).toNat)

/-- How many digits stand in front of the decimal point of `num / den`; zero or negative for a
value below one tenth and its tenths. -/
def wholeDigits (num den : Nat) : Int :=
  let k : Int := ((Decimal.digitsOf num).length : Int) - ((Decimal.digitsOf den).length : Int)
  let (n, d) := scaled num den (-k)
  if n < d then k else k + 1

/-- A value with the interval of reals that round to it, over one common denominator. -/
structure Interval where
  low : Nat
  mid : Nat
  high : Nat
  den : Nat
  closed : Bool

/-- The rounding interval of a positive `num / den` in a format. A power of two has its lower
neighbour at half the distance. -/
def interval (format : BinaryFormat) (num den : Nat) : Interval :=
  let e := max format.minExponent (floorLog2 num den - (format.precision - 1))
  let m := roundDiv .toEven (num * 2 ^ (-e).toNat) (den * 2 ^ e.toNat)
  let below := if m = 2 ^ (format.precision - 1) && format.minExponent < e then 1 else 2
  let up := 2 ^ e.toNat
  ⟨(4 * m - below) * up, 4 * m * up, (4 * m + 2) * up, 4 * 2 ^ (-e).toNat, m % 2 = 0⟩

def Interval.contains (i : Interval) (num den : Nat) : Bool :=
  if i.closed then i.low * den ≤ num * i.den && num * i.den ≤ i.high * den
  else i.low * den < num * i.den && num * i.den < i.high * den

/-- The best candidate on the grid of multiples of `10 ^ t`, if one reads back. -/
def candidate? (tie : TieRule) (i : Interval) (t : Int) : Option Nat :=
  let (n, d) := scaled i.mid i.den (-t)
  let down := n / d
  let at_ (c : Nat) : Bool :=
    i.contains (c * 10 ^ t.toNat) (10 ^ (-t).toNat)
  match at_ down, at_ (down + 1) with
  | true, true => some (roundDiv tie n d)
  | true, false => some down
  | false, true => some (down + 1)
  | false, false => none

/-- The digits of a positive `num / den`: the shortest that read back, of those the nearest. -/
def digits (format : BinaryFormat) (tie : TieRule) (num den : Nat) : Decimal :=
  let i := interval format num den
  let whole := wholeDigits i.mid i.den
  let lengths := (List.range 17).map fun k => whole - (k + 1 : Nat)
  match lengths.findSome? fun t => (candidate? tie i t).map fun c => (c, t) with
  | some (c, t) => (Decimal.mk false c t).trimmed
  | none => ⟨false, 0, 0⟩

/-- The shortest numeral of a rational with a sign of its own. -/
def ofRat (format : BinaryFormat) (tie : TieRule) (negative : Bool) (q : Rat) : Decimal :=
  if q.num = 0 then ⟨negative, 0, 0⟩
  else { digits format tie q.num.natAbs q.den with negative }

end Shortest

end Marginalia
