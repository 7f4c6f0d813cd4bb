import Marginalia.Mark.DefaultAppearance

/-!
The default style of a free text: properties in the manner of a style sheet, of which the font family
and the font weight count.
-/

namespace Marginalia

structure DefaultStyle where
  fontFamily : Option String
  bold : Bool
deriving DecidableEq, Repr

namespace DefaultStyle

def isQuote (c : Char) : Bool := c == '\'' || c == '"'

/-- The characters that a family name is made of. -/
def isFamilyChar (c : Char) : Bool := !isQuote c && c != ';'

/-- The family behind the colon: after white space and at most one quote, up to a quote or semicolon.
White space alone is taken for a name when nothing else is there. -/
def familyValue? (cs : List Char) : Option (List Char) :=
  let r := cs.dropWhile Unicode.isWhite
  let unquoted := match r with
    | c :: rest => if isQuote c then rest else r
    | [] => r
  match someRow? isFamilyChar unquoted with
  | some (family, _) => some family
  | none => if r.length < cs.length then some [' '] else none

def family? (cs : List Char) : Option String :=
  let found := firstMatch? (fun cs => do
    familyValue? (← expectChars? "font-family:".toList cs)) cs
  match found with
  | some family =>
    let name := Unicode.trimChars family
    if name.isEmpty then none else some (String.ofList name)
  | none => none

/-- Whether a weight is `bold` or one of 600 to 900. -/
def isBoldWeight : List Char → Bool
  | 'b' :: 'o' :: 'l' :: 'd' :: _ => true
  | d :: '0' :: '0' :: _ => '6' ≤ d && d ≤ '9'
  | _ => false

def hasBoldWeight (cs : List Char) : Bool :=
  (firstMatch? (fun cs => do
    let r ← expectChars? "font-weight:".toList cs
    if isBoldWeight (r.dropWhile Unicode.isWhite) then some () else none) cs).isSome

def parse (text : String) : DefaultStyle :=
  ⟨family? text.toList, hasBoldWeight text.toList⟩

/-- The default style written for a family, a size in points, a weight and a colour. -/
def render {α : Type} [Scalar α] (family : String) (size : α) (bold : Bool) (color : Color) :
    String :=
  "font-family: '" ++ family ++ "'; font-size: " ++ DefaultAppearance.numberText size ++
    "pt; font-weight: " ++ (if bold then "bold" else "normal") ++ "; color: " ++ color.text

end DefaultStyle

end Marginalia
