import Marginalia.Syntax.Byte

/-!
Bytes as rows of bits, in either order, and numbers taken from them.
-/

namespace Marginalia

abbrev Bits := List Bool

namespace Bits

/-- The eight bits of a byte, the least significant first. -/
def lowFirst (b : UInt8) : Bits :=
  (List.range 8).map fun i => b.toNat.testBit i

/-- The bits of a row of bytes, each byte from its least significant bit on. -/
def ofBytesLow (bs : Bytes) : Bits :=
  bs.flatMap lowFirst

/-- The bits of a row of bytes, each byte from its most significant bit on. -/
def ofBytesHigh (bs : Bytes) : Bits :=
  bs.flatMap fun b => (lowFirst b).reverse

/-- A number whose least significant bit comes first; `none` if there are too few bits. -/
def takeLow? : Nat → Bits → Option (Nat × Bits)
  | 0, bits => some (0, bits)
  | _ + 1, [] => none
  | n + 1, b :: bits => (takeLow? n bits).map fun (v, rest) => (2 * v + b.toNat, rest)

/-- A number whose most significant bit comes first, continuing `high`. -/
def takeHighFrom? (high : Nat) : Nat → Bits → Option (Nat × Bits)
  | 0, bits => some (high, bits)
  | _ + 1, [] => none
  | n + 1, b :: bits => takeHighFrom? (2 * high + b.toNat) n bits

def takeHigh? (n : Nat) (bits : Bits) : Option (Nat × Bits) :=
  takeHighFrom? 0 n bits

/-- The rest from the next byte boundary on. Rows of whole bytes are cut from the front only, so what
is left of the current byte is the length modulo eight. -/
def align (bits : Bits) : Bits :=
  bits.drop (bits.length % 8)

end Bits

end Marginalia
