import Marginalia.Instances

/-!
The three classes of bytes that page-description syntax is made of, and hexadecimal digits.
-/

namespace Marginalia

abbrev Bytes := List UInt8

namespace Syntax

/-- NUL, tab, line feed, form feed, carriage return and space separate tokens. -/
def isWhite (c : UInt8) : Bool :=
  c == 0 || c == 9 || c == 10 || c == 12 || c == 13 || c == 32

/-- The ten bytes that end a token without being white space. -/
def isDelimiter (c : UInt8) : Bool :=
  c == 0x28 || c == 0x29 || c == 0x3C || c == 0x3E || c == 0x5B || c == 0x5D ||
    c == 0x7B || c == 0x7D || c == 0x2F || c == 0x25

def isRegular (c : UInt8) : Bool :=
  !isWhite c && !isDelimiter c

def isLineEnd (c : UInt8) : Bool :=
  c == 10 || c == 13

def isDigit (c : UInt8) : Bool :=
  0x30 ≤ c && c ≤ 0x39

/-- Digits, signs and the point: a token that starts with one of these is meant as a number. -/
def startsNumber (c : UInt8) : Bool :=
  isDigit c || c == 0x2B || c == 0x2D || c == 0x2E

def hexValue? (c : UInt8) : Option UInt8 :=
  if isDigit c then some (c - 0x30)
  else if 0x61 ≤ c && c ≤ 0x66 then some (c - 0x61 + 10)
  else if 0x41 ≤ c && c ≤ 0x46 then some (c - 0x41 + 10)
  else none

def isHexDigit (c : UInt8) : Bool :=
  (hexValue? c).isSome

def octalValue? (c : UInt8) : Option UInt8 :=
  if 0x30 ≤ c && c ≤ 0x37 then some (c - 0x30) else none

/-- The upper-case hexadecimal digit of the low four bits. -/
def hexDigit (n : UInt8) : UInt8 :=
  let n := n % 16
  if n < 10 then 0x30 + n else 0x41 + (n - 10)

/-- A byte as two upper-case hexadecimal digits. -/
def hexPair (c : UInt8) : Bytes :=
  [hexDigit (c / 16), hexDigit (c % 16)]

/-- The byte that `#` and two hexadecimal digits denote. -/
def escapedByte? (c h l : UInt8) : Option UInt8 :=
  if c == 0x23 then
    match hexValue? h, hexValue? l with
    | some h, some l => some (h * 16 + l)
    | _, _ => none
  else none

/-- Replaces `#` and two hexadecimal digits by the byte they denote; any other `#` stands. -/
def unescapeName : Bytes → Bytes
  | c :: h :: l :: rest =>
    match escapedByte? c h l with
    | some b => b :: unescapeName rest
    | none => c :: unescapeName (h :: l :: rest)
  | bs => bs

/-- Pairs hexadecimal digit values into bytes; an odd last digit counts as the high half. -/
def pairNibbles : List UInt8 → Bytes
  | [] => []
  | [h] => [h * 16]
  | h :: l :: rest => (h * 16 + l) :: pairNibbles rest

/-- The bytes of an ASCII text; every program text written by this library is one. -/
def ascii (s : String) : Bytes :=
  s.toList.map fun c => UInt8.ofNat c.toNat

end Syntax

end Marginalia
