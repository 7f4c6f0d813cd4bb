import Marginalia.Instances

/-!
Decimal numerals: what a text such as `-12.50` or `3e4` says before it is rounded to a machine
number, how such a text is read, and how digits are laid out again without an exponent.
-/

namespace Marginalia

/-- The number `digits * 10 ^ exponent`, with the sign kept apart so that `-0` is a numeral too. -/
structure Decimal where
  negative : Bool
  digits : Nat
  exponent : Int
deriving DecidableEq, Repr, Inhabited

namespace Decimal

def magnitude (d : Decimal) : Rat :=
  if 0 ≤ d.exponent then ((d.digits * 10 ^ d.exponent.toNat : Nat) : Rat)
  else mkRat d.digits (10 ^ (-d.exponent).toNat)

def value (d : Decimal) : Rat :=
  if d.negative then -d.magnitude else d.magnitude

def digitValue? (c : Char) : Option Nat :=
  if c.isDigit then some (c.toNat - '0'.toNat) else none

/-- The number that a row of ASCII digits denotes; other characters count for nothing. -/
def natOfDigits (cs : List Char) : Nat :=
  cs.foldl (fun n c => n * 10 + (digitValue? c).getD 0) 0

/-- An optional sign in front of a numeral. -/
def takeSign : List Char → Bool × List Char
  | '-' :: cs => (true, cs)
  | '+' :: cs => (false, cs)
  | cs => (false, cs)

/-- An integer in decimal digits with an optional sign, nothing else around it. -/
def parseInt? (cs : List Char) : Option Int :=
  let (negative, ds) := takeSign cs
  if ds.isEmpty || !ds.all Char.isDigit then none
  else some (if negative then -(natOfDigits ds : Int) else natOfDigits ds)

/-- A natural number in decimal digits with an optional plus sign, nothing else around it. -/
def parseNat? (cs : List Char) : Option Nat :=
  let ds := match cs with
    | '+' :: ds => ds
    | ds => ds
  if ds.isEmpty || !ds.all Char.isDigit then none else some (natOfDigits ds)

/-- The part of a numeral behind its digits: nothing, or `e` and a whole number. -/
def parseExponent? : List Char → Option Int
  | [] => some 0
  | c :: cs => if c == 'e' || c == 'E' then parseInt? cs else none

/-- An optional sign, digits with at most one point among them and at least one digit, and an
optional exponent. -/
def parse? (cs : List Char) : Option Decimal :=
  let (negative, cs) := takeSign cs
  let whole := cs.takeWhile Char.isDigit
  let afterWhole := cs.dropWhile Char.isDigit
  let (fraction, rest) := match afterWhole with
    | '.' :: r => (r.takeWhile Char.isDigit, r.dropWhile Char.isDigit)
    | r => ([], r)
  if whole.isEmpty && fraction.isEmpty then none
  else (parseExponent? rest).map fun e =>
    ⟨negative, natOfDigits (whole ++ fraction), e - fraction.length⟩

/-- Decimal digits of a natural number, most significant first. -/
def digitsOf (n : Nat) : List Char :=
  Nat.toDigits 10 n

/-- The same number without trailing zeros among its digits. -/
def trimmed (d : Decimal) : Decimal :=
  let ds := digitsOf d.digits
  let zeros := (ds.reverse.takeWhile (· == '0')).length
  if d.digits = 0 then ⟨d.negative, 0, 0⟩
  else ⟨d.negative, d.digits / 10 ^ zeros, d.exponent + zeros⟩

/-- All digits in place: no exponent, a point only if digits follow it, and a leading zero in front
of a point. -/
def positional (d : Decimal) : String :=
  let ds := digitsOf d.digits
  let sign := if d.negative then "-" else ""
  if 0 ≤ d.exponent then
    if d.digits = 0 then sign ++ "0"
    else sign ++ String.ofList (ds ++ List.replicate d.exponent.toNat '0')
  else
    let places := (-d.exponent).toNat
    let padded := List.replicate (places + 1 - ds.length) '0' ++ ds
    let whole := padded.take (padded.length - places)
    sign ++ String.ofList (whole ++ '.' :: padded.drop (padded.length - places))

end Decimal

/-- How a value exactly halfway between two candidates is decided. -/
inductive TieRule where
  | toEven
  | away
deriving DecidableEq, Repr

/-- The integer nearest to `num / den`. -/
def roundDiv (tie : TieRule) (num den : Nat) : Nat :=
  let q := num / den
  let r := num % den
  if 2 * r < den then q
  else if den < 2 * r then q + 1
  else match tie with
    | .away => q + 1
    | .toEven => if q % 2 = 0 then q else q + 1

namespace Decimal

/-- A rational with a set number of decimal places, ties to the even neighbour. The sign is given
apart, because a negative value that rounds to zero keeps it. -/
def ofRat (places : Nat) (negative : Bool) (q : Rat) : Decimal :=
  ⟨negative, roundDiv .toEven (q.num.natAbs * 10 ^ places) q.den, -(places : Int)⟩

end Decimal

end Marginalia
