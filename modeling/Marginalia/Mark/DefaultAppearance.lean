import Marginalia.Geometry.Frame
import Marginalia.Mark.Color
import Marginalia.Text.DigitTable
import Marginalia.Text.Scan

/-!
The default appearance of a free text: a short content program that sets its font size and colour.
-/

namespace Marginalia

/-- What a default appearance tells; a part that is missing or malformed is not told. -/
structure DefaultAppearance (α : Type) where
  fontSize : Option α
  color : Option Color

namespace DefaultAppearance

variable {α : Type} [Scalar α]

/-- The characters that a number is looked for in. -/
def isNumeral (c : Char) : Bool :=
  c == '.' || Unicode.inRanges Unicode.decimalDigits c.toNat

/-- So many numerals, each with white space behind it, in front of an operator. -/
def numeralsBefore? (operator : List Char) : Nat → List Char → Option (List (List Char))
  | 0, cs => (expectChars? operator cs).map fun _ => []
  | n + 1, cs => do
    let (numeral, rest) ← someRow? isNumeral cs
    let rest ← someBlank? rest
    let more ← numeralsBefore? operator n rest
    return numeral :: more

/-- The numbers in front of the first place where an operator has so many numerals before it. -/
def operandsOf? (operator : String) (count : Nat) (text : List Char) : Option (List α) := do
  let numerals ← firstMatch? (numeralsBefore? operator.toList count) text
  (← numerals.mapM Decimal.parse?).mapM fun d => some (Scalar.ofDecimal d)

def parse (text : String) : DefaultAppearance α :=
  let cs := text.toList
  { fontSize := (operandsOf? "Tf" 1 cs).bind List.head?
    color := match operandsOf? (α := α) "rg" 3 cs with
      | some [r, g, b] => some (Color.ofUnits r g b)
      | _ => none }

/-- A number with at most three decimals and no zeros at their end. -/
def numberText (x : α) : String :=
  let cs := (Scalar.fixed 3 x).toList.reverse
  let cs := ((cs.dropWhile (· == '0')).dropWhile (· == '.')).reverse
  if cs.isEmpty || cs == ['-', '0'] then "0" else String.ofList cs

/-- The default appearance written for a size in points and a colour. -/
def render (size : α) (color : Color) : String :=
  let rgb := String.join ((color.units (α := α)).map fun v => " " ++ numberText v)
  "/Helv " ++ numberText size ++ " Tf" ++ rgb ++ " rg"

end DefaultAppearance

end Marginalia
