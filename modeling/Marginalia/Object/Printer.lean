import Marginalia.Object.Basic

/-!
Writing objects, in the form that the strict reader takes.
-/

namespace Marginalia

namespace ObjectPrinter

/-- The bytes that stand for themselves in a name. -/
def isNameByte (c : UInt8) : Bool :=
  33 ≤ c && c ≤ 126 && Syntax.isRegular c && c != 0x23

def name (n : Bytes) : Bytes :=
  0x2F :: n.flatMap fun c => if isNameByte c then [c] else 0x23 :: Syntax.hexPair c

/-- The text of a literal string inside `depth` parentheses that are open before it, and how many
parentheses that it closes are left to close others. Only parentheses without a partner are escaped,
besides backslashes and carriage returns. -/
def literalBody : (depth : Nat) → Bytes → Bytes × Nat
  | _, [] => ([], 0)
  | depth, c :: cs =>
    if c == 0x28 then
      let (rest, closing) := literalBody (depth + 1) cs
      if closing = 0 then (0x5C :: c :: rest, 0) else (c :: rest, closing - 1)
    else if c == 0x29 then
      let (rest, closing) := literalBody (depth - 1) cs
      (if depth = 0 then 0x5C :: c :: rest else c :: rest, closing + 1)
    else
      let (rest, closing) := literalBody depth cs
      if c == 0x5C then (0x5C :: c :: rest, closing)
      else if c == 13 then (0x5C :: 0x72 :: rest, closing)
      else (c :: rest, closing)

def literal (s : Bytes) : Bytes :=
  0x28 :: (literalBody 0 s).1 ++ [0x29]

def hexString (s : Bytes) : Bytes :=
  0x3C :: s.flatMap Syntax.hexPair ++ [0x3E]

def int (n : Int) : Bytes := Syntax.ascii (toString n)

/-- A number in its shortest form without an exponent; what is no finite number has a word. -/
def real {α : Type} [Scalar α] (x : α) : Bytes :=
  match Scalar.numeral x with
  | some d => Syntax.ascii d.positional
  | none =>
    match Scalar.exact x with
    | .infinite true => Syntax.ascii "-inf"
    | .infinite false => Syntax.ascii "inf"
    | _ => Syntax.ascii "NaN"

def reference (id : ObjectId) : Bytes :=
  Syntax.ascii (toString id.number ++ " " ++ toString id.generation ++ " R")

/-- Whether the written form starts with a regular byte, so that a blank has to keep it from what is
in front. -/
def needsBlank {α : Type} : Object α → Bool
  | .null | .bool _ | .int _ | .real _ | .ref _ => true
  | _ => false

/-- A blank in front of what needs one. -/
def blankBefore {α : Type} (v : Object α) : Bytes :=
  if needsBlank v then [0x20] else []

end ObjectPrinter

mutual

/-- The written form of an object. -/
def Object.print {α : Type} [Scalar α] : Object α → Bytes
  | .null => Syntax.ascii "null"
  | .bool b => Syntax.ascii (if b then "true" else "false")
  | .int n => ObjectPrinter.int n
  | .real x => ObjectPrinter.real x
  | .name n => ObjectPrinter.name n
  | .string s hex => if hex then ObjectPrinter.hexString s else ObjectPrinter.literal s
  | .array items => 0x5B :: Object.printItems true items ++ [0x5D]
  | .dict entries => [0x3C, 0x3C] ++ Object.printEntries entries ++ [0x3E, 0x3E]
  | .stream entries data =>
    [0x3C, 0x3C] ++ Object.printEntries entries ++ [0x3E, 0x3E] ++ Syntax.ascii "stream\n" ++ data ++
      Syntax.ascii "\nendstream"
  | .ref id => ObjectPrinter.reference id

/-- The items of an array. -/
def Object.printItems {α : Type} [Scalar α] (first : Bool) : List (Object α) → Bytes
  | [] => []
  | v :: vs =>
    (if first then [] else ObjectPrinter.blankBefore v) ++ v.print ++ Object.printItems false vs

/-- The entries of a dictionary. -/
def Object.printEntries {α : Type} [Scalar α] : List (Bytes × Object α) → Bytes
  | [] => []
  | (key, v) :: es =>
    ObjectPrinter.name key ++ ObjectPrinter.blankBefore v ++ v.print ++ Object.printEntries es

end

end Marginalia
