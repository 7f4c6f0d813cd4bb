import Marginalia.Syntax.Byte

/-!
The one-byte encoding of Latin text: ASCII, a row of typographic characters from 0x80 to 0x9F, and
from 0xA0 on each byte its own code point.
-/

namespace Marginalia

namespace WinAnsi

/-- The characters of the bytes from 0x80 to 0x9F; five of them are unassigned. -/
def typographic : List (Option Char) :=
  [some '\u20AC', none, some '\u201A', some '\u0192', some '\u201E', some '\u2026', some '\u2020',
    some '\u2021', some '\u02C6', some '\u2030', some '\u0160', some '\u2039', some '\u0152', none,
    some '\u017D', none, none, some '\u2018', some '\u2019', some '\u201C', some '\u201D',
    some '\u2022', some '\u2013', some '\u2014', some '\u02DC', some '\u2122', some '\u0161',
    some '\u203A', some '\u0153', none, some '\u017E', some '\u0178']

/-- The character of a byte; an unassigned one stands for its own code point. -/
def charOf (b : UInt8) : Char :=
  if 0x80 ≤ b && b ≤ 0x9F then
    ((typographic[(b - 0x80).toNat]?).join).getD (Char.ofNat b.toNat)
  else Char.ofNat b.toNat

def decode (bs : Bytes) : List Char := bs.map charOf

/-- The byte of a character, if it has one. -/
def byte? (c : Char) : Option UInt8 :=
  let n := c.toNat
  if (0x20 ≤ n && n ≤ 0x7E) || (0xA0 ≤ n && n ≤ 0xFF) then some (UInt8.ofNat n)
  else (typographic.findIdx? (· == some c)).map fun i => UInt8.ofNat (0x80 + i)

end WinAnsi

end Marginalia
