import Marginalia.Content.Operand
import Marginalia.Syntax.Literal

/-!
The recovering reader of content programs. It takes one byte at a time, so that what is known after
a part of the input is a value of its own (`Lexer`), and reading more is a fold over the rest.
Reading stops at the first hard fault; all operations before it are kept.
-/

namespace Marginalia

inductive FaultKind where
  | unterminatedString
  | unterminatedHexString
  | unterminatedArray
  | unterminatedDictionary
  | unexpectedDelimiter (c : UInt8)
  | unexpectedKeyword
  | invalidDictionaryKey
deriving DecidableEq, Repr

/-- Where and why reading stopped early. -/
structure LexFault where
  offset : Nat
  kind : FaultKind
deriving DecidableEq, Repr

/-- What is wrong, in words. -/
def FaultKind.message : FaultKind → String
  | unterminatedString => "unterminated string"
  | unterminatedHexString => "unterminated hex string"
  | unterminatedArray => "unterminated array"
  | unterminatedDictionary => "unterminated dictionary"
  | unexpectedDelimiter c => "unexpected delimiter '" ++ String.singleton (Char.ofNat c.toNat) ++ "'"
  | unexpectedKeyword => "operator inside array or dictionary"
  | invalidDictionaryKey => "dictionary key is not a name"

def LexFault.message (e : LexFault) : String :=
  e.kind.message ++ " at byte " ++ toString e.offset

/-- The operations read, and the fault that ended the reading if there was one. -/
structure Decoded (α : Type) where
  operations : List (Operation α)
  fault : Option LexFault

/-- An array or dictionary that is still open, with its contents so far in reverse. A dictionary
that has read a key waits for its value. -/
inductive Container (α : Type) where
  | array (start : Nat) (items : List (Operand α))
  | dict (start : Nat) (entries : List (Bytes × Operand α)) (key : Option Bytes)

/-- How far the search for the end of an inline image has come. -/
inductive ImageScan where
  | samples (afterWhite : Bool)
  | e
  | ei

/-- What the reader is inside of. -/
inductive Mode where
  | between
  | comment
  | word (start : Nat) (bytes : Bytes)
  | name (start : Nat) (bytes : Bytes)
  | literal (start : Nat) (string : Literal)
  | less (start : Nat)
  | hex (start : Nat) (nibbles : List UInt8)
  | greater (start : Nat)
  | imageStart
  | image (scan : ImageScan)
  | halted (fault : Option LexFault)

/-- All that is known after a part of the input. Lists are in reverse; `image` says that the
parameters of an inline image are being read. -/
structure Lexer (α : Type) where
  offset : Nat
  mode : Mode
  nesting : List (Container α)
  operands : List (Operand α)
  operations : List (Operation α)
  image : Bool

namespace Lexer

variable {α : Type}

def initial : Lexer α := ⟨0, .between, [], [], [], false⟩

/-- Stops reading. A fault inside the parameters of an inline image only drops the rest. -/
def fail (s : Lexer α) (offset : Nat) (kind : FaultKind) : Lexer α :=
  { s with mode := .halted (if s.image then none else some ⟨offset, kind⟩) }

/-- Takes a finished value that began at `start`. A dictionary takes a name as a key and anything
as the value of a key. -/
def deliver (s : Lexer α) (start : Nat) (v : Operand α) : Lexer α :=
  let s := { s with mode := .between }
  match s.nesting with
  | [] => if s.image then s else { s with operands := v :: s.operands }
  | .array at_ items :: rest => { s with nesting := .array at_ (v :: items) :: rest }
  | .dict at_ entries (some key) :: rest =>
    { s with nesting := .dict at_ ((key, v) :: entries) none :: rest }
  | .dict at_ entries none :: rest =>
    match v with
    | .name key => { s with nesting := .dict at_ entries (some key) :: rest }
    | _ => s.fail start .invalidDictionaryKey

/-- Takes an operator. Only programs hold operators, arrays and dictionaries do not. -/
def operator (s : Lexer α) (start : Nat) (word : String) : Lexer α :=
  if !s.nesting.isEmpty then s.fail start .unexpectedKeyword
  else if s.image then { s with mode := if word == "ID" then .imageStart else .between }
  else
    { s with
      mode := .between
      operands := []
      operations := ⟨word, s.operands.reverse⟩ :: s.operations
      image := word == "BI" }

/-- A number with a point is a real, any other an integer; a malformed one is null. -/
def numberOf [Scalar α] (word : List Char) : Operand α :=
  if word.contains '.' then
    match Decimal.parse? word with
    | some d => .real (Scalar.ofDecimal d)
    | none => .null
  else
    match Decimal.parseInt? word with
    | some n => if inWordRange n then .int n else .null
    | none => .null

/-- Takes a finished word: a number, one of the three value keywords, or an operator. -/
def word [Scalar α] (s : Lexer α) (start : Nat) (bytes : Bytes) : Lexer α :=
  let text := Utf8.decodeLossy bytes
  match bytes with
  | c :: _ =>
    if Syntax.startsNumber c then s.deliver start (numberOf text)
    else if bytes == Syntax.ascii "true" then s.deliver start (.bool true)
    else if bytes == Syntax.ascii "false" then s.deliver start (.bool false)
    else if bytes == Syntax.ascii "null" then s.deliver start .null
    else s.operator start (String.ofList text)
  | [] => s

/-- Closes the innermost array. -/
def closeArray (s : Lexer α) : Lexer α :=
  match s.nesting with
  | .array start items :: rest => { s with nesting := rest }.deliver start (.array items.reverse)
  | _ => s.fail s.offset (.unexpectedDelimiter 0x5D)

/-- Closes the innermost dictionary. -/
def closeDict (s : Lexer α) : Lexer α :=
  match s.nesting with
  | .dict start entries _ :: rest => { s with nesting := rest }.deliver start (.dict entries.reverse)
  | _ => s.fail s.offset (.unexpectedDelimiter 0x3E)

/-- A `>` between tokens. In a dictionary it stands for a missing value, and is then the first of
the two that close it. -/
def greaterSign (s : Lexer α) : Lexer α :=
  match s.nesting with
  | .dict start entries (some key) :: rest =>
    { s with nesting := .dict start ((key, .null) :: entries) none :: rest, mode := .greater s.offset }
  | .dict _ _ none :: _ => { s with mode := .greater s.offset }
  | _ => s.fail s.offset (.unexpectedDelimiter 0x3E)

/-- A byte at which a token may start. -/
def startToken (s : Lexer α) (c : UInt8) : Lexer α :=
  if Syntax.isWhite c then s
  else if c == 0x25 then { s with mode := .comment }
  else if c == 0x28 then { s with mode := .literal s.offset Literal.empty }
  else if c == 0x3C then { s with mode := .less s.offset }
  else if c == 0x5B then { s with nesting := .array s.offset [] :: s.nesting }
  else if c == 0x2F then { s with mode := .name s.offset [] }
  else if c == 0x5D then s.closeArray
  else if c == 0x3E then s.greaterSign
  else if Syntax.isDelimiter c then s.fail s.offset (.unexpectedDelimiter c)
  else { s with mode := .word s.offset [c] }

/-- A byte of a hexadecimal string; bytes that are no digits are passed over. -/
def hexByte (s : Lexer α) (start : Nat) (nibbles : List UInt8) (c : UInt8) : Lexer α :=
  if c == 0x3E then s.deliver start (.string (Syntax.pairNibbles nibbles.reverse))
  else match Syntax.hexValue? c with
    | some d => { s with mode := .hex start (d :: nibbles) }
    | none => { s with mode := .hex start nibbles }

/-- The end of an inline image is `EI` with white space on both sides. -/
def scanImage (s : Lexer α) (scan : ImageScan) (c : UInt8) : Lexer α :=
  let other := { s with mode := .image (.samples (Syntax.isWhite c)) }
  match scan with
  | .samples afterWhite => if afterWhite && c == 0x45 then { s with mode := .image .e } else other
  | .e => if c == 0x49 then { s with mode := .image .ei } else other
  | .ei => if Syntax.isWhite c then { s with mode := .between, image := false } else other

/-- The byte behind `ID` is skipped, whatever it is. -/
def skipSeparator (s : Lexer α) (c : UInt8) : Lexer α :=
  { s with mode := .image (.samples (Syntax.isWhite c)) }

/-- The state that a byte leads to, the offset still being that of the byte. -/
def react [Scalar α] (s : Lexer α) (c : UInt8) : Lexer α :=
  match s.mode with
  | .between => s.startToken c
  | .comment => if Syntax.isLineEnd c then { s with mode := .between } else s
  | .word start bytes =>
    if Syntax.isRegular c then { s with mode := .word start (c :: bytes) }
    else
      let s := s.word start bytes.reverse
      match s.mode with
      | .between => s.startToken c
      | .imageStart => s.skipSeparator c
      | _ => s
  | .name start bytes =>
    if Syntax.isRegular c then { s with mode := .name start (c :: bytes) }
    else
      let s := s.deliver start (.name (Syntax.unescapeName bytes.reverse))
      match s.mode with
      | .between => s.startToken c
      | _ => s
  | .literal start string =>
    match string.next c with
    | .inl string => { s with mode := .literal start string }
    | .inr bytes => s.deliver start (.string bytes)
  | .less start =>
    if c == 0x3C then { s with mode := .between, nesting := .dict start [] none :: s.nesting }
    else s.hexByte start [] c
  | .hex start nibbles => s.hexByte start nibbles c
  | .greater start => if c == 0x3E then s.closeDict else s.fail start .invalidDictionaryKey
  | .imageStart => s.skipSeparator c
  | .image scan => s.scanImage scan c
  | .halted _ => s

def step [Scalar α] (s : Lexer α) (c : UInt8) : Lexer α :=
  let s := s.react c
  { s with offset := s.offset + 1 }

/-- At the end of the input, an array or dictionary that is still open is a fault. -/
def closeNesting (s : Lexer α) : Lexer α :=
  match s.nesting with
  | [] => s
  | .array start _ :: _ => s.fail start .unterminatedArray
  | .dict start _ _ :: _ => s.fail start .unterminatedDictionary

/-- The state at the end of the input: an open token is finished or found unterminated. -/
def finish [Scalar α] (s : Lexer α) : Lexer α :=
  let settle (s : Lexer α) : Lexer α := match s.mode with
    | .between => s.closeNesting
    | _ => s
  match s.mode with
  | .between | .comment => s.closeNesting
  | .word start bytes => settle (s.word start bytes.reverse)
  | .name start bytes => settle (s.deliver start (.name (Syntax.unescapeName bytes.reverse)))
  | .literal start _ => s.fail start .unterminatedString
  | .less start | .hex start _ => s.fail start .unterminatedHexString
  | .greater start => s.fail start .invalidDictionaryKey
  | .imageStart | .image _ | .halted _ => s

def read [Scalar α] (s : Lexer α) (bytes : Bytes) : Lexer α :=
  bytes.foldl step s

def decoded (s : Lexer α) : Decoded α :=
  ⟨s.operations.reverse, match s.mode with | .halted fault => fault | _ => none⟩

end Lexer

/-- All operations of a content program up to the first fault. -/
def lexOperations {α : Type} [Scalar α] (bytes : Bytes) : Decoded α :=
  (Lexer.initial.read bytes).finish.decoded

end Marginalia
