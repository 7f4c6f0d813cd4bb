import Marginalia.Content.Lexer
import Marginalia.Object.Reader

/-!
The strict reader of content programs: operation by operation, dropping everything from the first
one that does not parse. Only a broken inline image makes the whole reading fail, and the recovering
reader takes over.
-/

namespace Marginalia

namespace Grammar

variable {α : Type} [Scalar α]

/-- The white space between the parts of an operation. -/
def isSpace (c : UInt8) : Bool :=
  c == 32 || c == 9 || c == 13 || c == 10

def skipSpaces (bs : Bytes) : Bytes :=
  bs.dropWhile isSpace

def isOperatorByte (c : UInt8) : Bool :=
  (0x41 ≤ c && c ≤ 0x5A) || (0x61 ≤ c && c ≤ 0x7A) || c == 0x2A || c == 0x27 || c == 0x22

def operator? (bs : Bytes) : Option (String × Bytes) :=
  let word := bs.takeWhile isOperatorByte
  if word.isEmpty then none
  else some (String.ofList (Latin1.decode word), bs.dropWhile isOperatorByte)

/-- As many operands as there are, each nested no deeper than `depth`. -/
def operands (depth : Nat) : Nat → List (Operand α) → Bytes → List (Operand α) × Bytes
  | 0, acc, bs => (acc.reverse, bs)
  | fuel + 1, acc, bs =>
    match ObjectReader.value? false depth bs with
    | some (v, r) => operands depth fuel (Operand.ofObject v :: acc) (skipSpaces r)
    | none => (acc.reverse, bs)

/-- Passes over comments, each up to its end of line. -/
def skipComments : Nat → Bytes → Bytes
  | 0, bs => bs
  | fuel + 1, bs =>
    match ObjectReader.comment? bs with
    | some r => skipComments fuel r
    | none => bs

/-- How many colour components a sample has. -/
def components? (d : Dict α) : Option Nat :=
  let either (short long : String) : Option (Object α) :=
    match d.get? short with
    | some v => some v
    | none => d.get? long
  match either "IM" "ImageMask" with
  | some (.bool true) => some 1
  | _ =>
    match either "CS" "ColorSpace" with
    | some (.name n) =>
      if n == Syntax.ascii "DeviceGray" || n == Syntax.ascii "Gray" then some 1
      else if n == Syntax.ascii "DeviceRGB" || n == Syntax.ascii "RGB" then some 3
      else if n == Syntax.ascii "DeviceRGBA" || n == Syntax.ascii "RGBA" then some 4
      else if n == Syntax.ascii "DeviceCMYK" || n == Syntax.ascii "CMYK" then some 4
      else none
    | _ => none

/-- How many bytes of samples follow the parameters of an unfiltered image: rows of whole bytes, counted
modulo 2 to the 64. -/
def sampleBytes? (d : Dict α) : Option Nat := do
  let either (short long : String) : Option (Object α) :=
    match d.get? short with
    | some v => some v
    | none => d.get? long
  let width ← (either "W" "Width").bind Object.int?
  let height ← (either "H" "Height").bind Object.int?
  let bits ← (either "BPC" "BitsPerComponent").bind Object.int?
  let colors ← components? d
  if (either "F" "Filter").isSome then none
  else
    let word (n : Int) : Nat := (n % 2 ^ 64).toNat
    let row := (word width * colors * word bits % 2 ^ 64 + 7) / 8
    return word height * row % 2 ^ 64

/-- An inline image behind its `BI`: parameters, `ID`, samples, `EI`. Its operand is the dictionary
of the parameters with the length of the samples. -/
def inlineImage? (fuel : Nat) (bs : Bytes) : Option (Operation α × Bytes) := do
  let (d, r) : Dict α × Bytes := ObjectReader.entries fuel [] (skipSpaces bs)
  let r ← ObjectReader.expect? (Syntax.ascii "ID") r
  let r := skipSpaces r
  let n ← sampleBytes? d
  if r.length < n then none
  else
    let r ← ObjectReader.expect? (Syntax.ascii "EI") (skipSpaces (r.drop n))
    return (⟨"BI", [.dict (Operand.ofEntries (d.set "Length" (.int n)))]⟩, skipSpaces r)

/-- What stands at the front of the input. -/
inductive Step (α : Type) where
  | operation (op : Operation α) (rest : Bytes)
  | stop
  | brokenImage

def step (fuel : Nat) (bs : Bytes) : Step α :=
  let bs := skipComments fuel bs
  match ObjectReader.expect? (Syntax.ascii "BI") bs with
  | some r =>
    match inlineImage? fuel r with
    | some (op, r) => .operation op r
    | none => .brokenImage
  | none =>
    let (vs, r) := operands fuel fuel [] bs
    match operator? r with
    | some (word, r) => .operation ⟨word, vs⟩ (skipSpaces r)
    | none => .stop

/-- All operations up to the first that does not parse; `none` if that is a broken image. -/
def operationsFrom (limit : Nat) : Nat → List (Operation α) → Bytes → Option (List (Operation α))
  | 0, acc, _ => some acc.reverse
  | fuel + 1, acc, bs =>
    match step limit bs with
    | .operation op r => operationsFrom limit fuel (op :: acc) r
    | .stop => some acc.reverse
    | .brokenImage => none

def operations? (bs : Bytes) : Option (List (Operation α)) :=
  let fuel := ObjectReader.fuelFor bs
  operationsFrom fuel fuel [] (skipSpaces bs)

end Grammar

/-- The operations of a content program: read strictly, or by the recovering reader when an inline
image is broken. -/
def decodeOperations {α : Type} [Scalar α] (bs : Bytes) : List (Operation α) :=
  match Grammar.operations? bs with
  | some ops => ops
  | none => (lexOperations bs).operations

end Marginalia
