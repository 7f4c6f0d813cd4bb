import Marginalia.Object.Basic
import Marginalia.Syntax.Literal

/-!
Reading objects in their strict written form. Every reader takes the input and gives the value and
what is left, or nothing when the input does not begin with such a value.
-/

namespace Marginalia

namespace ObjectReader

/-- The input behind an expected beginning. -/
def expect? (word : Bytes) (bs : Bytes) : Option Bytes :=
  if word.isPrefixOf bs then some (bs.drop word.length) else none

/-- Behind an end of line, which is CR LF, LF or CR. -/
def lineEnd? : Bytes → Option Bytes
  | 13 :: 10 :: rest => some rest
  | 10 :: rest => some rest
  | 13 :: rest => some rest
  | _ => none

/-- Behind the text of a comment and its end of line, without which it is no comment. -/
def commentBody? : Bytes → Option Bytes
  | [] => none
  | c :: cs => if Syntax.isLineEnd c then lineEnd? (c :: cs) else commentBody? cs

def comment? : Bytes → Option Bytes
  | 0x25 :: rest => commentBody? rest
  | _ => none

/-- Passes over white space and comments. `pending` is what the comment at hand began with, and is
given back if the comment never ends. -/
def skipBlankFrom (pending : Option Bytes) : Bytes → Bytes
  | [] => pending.getD []
  | c :: cs =>
    match pending with
    | none =>
      if Syntax.isWhite c then skipBlankFrom none cs
      else if c == 0x25 then skipBlankFrom (some (c :: cs)) cs
      else c :: cs
    | some _ => if Syntax.isLineEnd c then skipBlankFrom none cs else skipBlankFrom pending cs

def skipBlank (bs : Bytes) : Bytes :=
  skipBlankFrom none bs

/-- An optional sign. -/
def sign : Bytes → Bytes × Bytes
  | 0x2B :: rest => ([0x2B], rest)
  | 0x2D :: rest => ([0x2D], rest)
  | bs => ([], bs)

def digits (bs : Bytes) : Bytes × Bytes :=
  (bs.takeWhile Syntax.isDigit, bs.dropWhile Syntax.isDigit)

def chars (bs : Bytes) : List Char :=
  Latin1.decode bs

/-- An unsigned number below a bound. -/
def unsigned? (bound : Nat) (bs : Bytes) : Option (Nat × Bytes) :=
  let (ds, rest) := digits bs
  let n := Decimal.natOfDigits (chars ds)
  if ds.isEmpty || bound ≤ n then none else some (n, rest)

def integer? (bs : Bytes) : Option (Int × Bytes) :=
  let (sgn, r) := sign bs
  let (ds, rest) := digits r
  match Decimal.parseInt? (chars (sgn ++ ds)) with
  | some n => if inWordRange n then some (n, rest) else none
  | none => none

/-- A number with a point, taken in single precision. -/
def real? {α : Type} [Scalar α] (bs : Bytes) : Option (α × Bytes) :=
  let (sgn, r) := sign bs
  let (whole, r) := digits r
  match r with
  | 0x2E :: r =>
    let (fraction, rest) := digits r
    (Decimal.parse? (chars (sgn ++ whole ++ 0x2E :: fraction))).map fun d =>
      (Scalar.ofDecimalNarrow d, rest)
  | _ => none

/-- The bytes of a name behind its slash. It ends where a `#` is not followed by two digits. -/
def nameBytes : Bytes → Bytes × Bytes
  | c :: h :: l :: rest =>
    if !Syntax.isRegular c then ([], c :: h :: l :: rest)
    else if c == 0x23 then
      match Syntax.escapedByte? c h l with
      | some b => let (n, r) := nameBytes rest; (b :: n, r)
      | none => ([], c :: h :: l :: rest)
    else let (n, r) := nameBytes (h :: l :: rest); (c :: n, r)
  | [c, d] =>
    if !Syntax.isRegular c || c == 0x23 then ([], [c, d])
    else if !Syntax.isRegular d || d == 0x23 then ([c], [d])
    else ([c, d], [])
  | [c] => if !Syntax.isRegular c || c == 0x23 then ([], [c]) else ([c], [])
  | [] => ([], [])

def name? : Bytes → Option (Bytes × Bytes)
  | 0x2F :: rest => some (nameBytes rest)
  | _ => none

/-- Parentheses nest at most this deep inside a literal string. -/
def maxParentheses : Nat := 100

def literal? : Bytes → Option (Bytes × Bytes)
  | 0x28 :: rest => Literal.empty.read? maxParentheses rest
  | _ => none

/-- Hexadecimal digits with white space among them, up to the closing `>`. -/
def hexBody? (nibbles : List UInt8) : Bytes → Option (Bytes × Bytes)
  | [] => none
  | c :: cs =>
    if c == 0x3E then some (Syntax.pairNibbles nibbles.reverse, cs)
    else match Syntax.hexValue? c with
      | some d => hexBody? (d :: nibbles) cs
      | none => if Syntax.isWhite c then hexBody? nibbles cs else none

def hexString? : Bytes → Option (Bytes × Bytes)
  | 0x3C :: rest => hexBody? [] rest
  | _ => none

/-- A reference `n g R`. -/
def reference? (bs : Bytes) : Option (ObjectId × Bytes) := do
  let (number, r) ← unsigned? 4294967296 bs
  let (generation, r) ← unsigned? 65536 (skipBlank r)
  let r ← expect? [0x52] (skipBlank r)
  return (⟨number, generation⟩, r)

/-- The first of two readings that succeeds. -/
def firstOf {β : Type} (a : Option β) (b : Unit → Option β) : Option β :=
  match a with
  | some v => some v
  | none => b ()

/-- A value with no parts. References are read only where they may stand, before numbers. -/
def simple? {α : Type} [Scalar α] (references : Bool) (bs : Bytes) : Option (Object α × Bytes) :=
  firstOf ((expect? (Syntax.ascii "null") bs).map fun r => (.null, r)) fun _ =>
  firstOf ((expect? (Syntax.ascii "true") bs).map fun r => (.bool true, r)) fun _ =>
  firstOf ((expect? (Syntax.ascii "false") bs).map fun r => (.bool false, r)) fun _ =>
  firstOf (if references then (reference? bs).map fun (id, r) => (.ref id, r) else none) fun _ =>
  firstOf ((real? bs).map fun (x, r) => (.real x, r)) fun _ =>
  firstOf ((integer? bs).map fun (n, r) => (.int n, r)) fun _ =>
  firstOf ((name? bs).map fun (n, r) => (.name n, r)) fun _ =>
  firstOf ((literal? bs).map fun (s, r) => (.string s false, r)) fun _ =>
  (hexString? bs).map fun (s, r) => (.string s true, r)

mutual

/-- One value. The fuel bounds the values still to come. -/
def value? {α : Type} [Scalar α] (references : Bool) : Nat → Bytes → Option (Object α × Bytes)
  | 0, _ => none
  | fuel + 1, bs =>
    match simple? references bs with
    | some v => some v
    | none =>
      match bs with
      | 0x5B :: rest =>
        let (vs, r) := items fuel [] (skipBlank rest)
        (expect? [0x5D] r).map fun r => (.array vs, r)
      | 0x3C :: 0x3C :: rest =>
        let (es, r) := entries fuel [] (skipBlank rest)
        (expect? [0x3E, 0x3E] r).map fun r => (.dict es, r)
      | _ => none

/-- As many values as there are, with what lies between them. -/
def items {α : Type} [Scalar α] : Nat → List (Object α) → Bytes → List (Object α) × Bytes
  | 0, acc, bs => (acc.reverse, bs)
  | fuel + 1, acc, bs =>
    match value? true fuel bs with
    | some (v, r) => items fuel (v :: acc) (skipBlank r)
    | none => (acc.reverse, bs)

/-- As many dictionary entries as there are. A key that comes again replaces its value. -/
def entries {α : Type} [Scalar α] : Nat → Dict α → Bytes → Dict α × Bytes
  | 0, acc, bs => (acc, bs)
  | fuel + 1, acc, bs =>
    match name? bs with
    | some (key, r) =>
      match value? true fuel (skipBlank r) with
      | some (v, r) => entries fuel (acc.setBytes key v) (skipBlank r)
      | none => (acc, bs)
    | none => (acc, bs)

end

/-- Fuel that no input of this length uses up. -/
def fuelFor (bs : Bytes) : Nat := bs.length + 1

end ObjectReader

end Marginalia
