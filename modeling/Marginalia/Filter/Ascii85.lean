import Marginalia.Syntax.Byte

/-!
Groups of five printable characters for four bytes.
-/

namespace Marginalia

namespace Ascii85

/-- What is wrong with a text: a `z` inside a group, or a group for more than four bytes. -/
inductive Fault where
  | zeroInGroup
  | tooLarge
deriving DecidableEq, Repr

def Fault.message : Fault → String
  | zeroInGroup => "z character is not allowed in the middle of a group"
  | tooLarge => "multiplication overflow"

def isBlank (c : UInt8) : Bool :=
  c == 9 || c == 10 || c == 12 || c == 13 || c == 32

/-- The four bytes of a number, the most significant first. -/
def groupBytes (n : Nat) : Except Fault Bytes :=
  if n < 2 ^ 32 then
    .ok [UInt8.ofNat (n / 2 ^ 24), UInt8.ofNat (n / 2 ^ 16), UInt8.ofNat (n / 2 ^ 8), UInt8.ofNat n]
  else .error .tooLarge

/-- The bytes of an unfinished group of digits: one fewer than it has digits. -/
def finish (value count : Nat) : Except Fault Bytes :=
  if count = 0 then .ok []
  else
    let padded := (List.range (5 - count)).foldl (fun v _ => v * 85 + 84) value
    (groupBytes padded).map fun bs => bs.take (count - 1)

/-- Reads digits onto a group of `count` digits with a value. A `z` is a whole group of zeros, and any
byte that is no digit ends the data. -/
def decodeFrom : (value count : Nat) → Bytes → Except Fault Bytes
  | value, count, [] => finish value count
  | value, count, c :: cs =>
    if isBlank c then decodeFrom value count cs
    else if c == 0x7A then
      if count = 0 then (decodeFrom 0 0 cs).map ([0, 0, 0, 0] ++ ·) else .error .zeroInGroup
    else if c < 0x21 || 0x75 < c then finish value count
    else
      let value := value * 85 + (c - 0x21).toNat
      if count = 4 then do
        let group ← groupBytes value
        return group ++ (← decodeFrom 0 0 cs)
      else decodeFrom value (count + 1) cs

/-- The bytes of a text, whose end may be marked by `~>`. -/
def decode (bs : Bytes) : Except Fault Bytes :=
  if [0x7E, 0x3E].isSuffixOf bs then decodeFrom 0 0 (bs.take (bs.length - 2)) else decodeFrom 0 0 bs

end Ascii85

end Marginalia
