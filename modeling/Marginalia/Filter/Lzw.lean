import Marginalia.Filter.Bits

/-!
Decompression by a growing table of sequences. Codes start at nine bits and widen with the table.
-/

namespace Marginalia

namespace Lzw

/-- The code that empties the table. -/
def clearCode : Nat := 256

/-- The code that ends the data. -/
def endCode : Nat := 257

/-- The sequences beyond single bytes, in the order of their codes from 258 on, and the sequence read
last, if the next one is to extend it. -/
structure Table where
  sequences : Array Bytes
  previous : Option Bytes

def Table.empty : Table := ⟨#[], none⟩

/-- The code that the next sequence gets. -/
def Table.next (t : Table) : Nat := 258 + t.sequences.size

/-- No table is larger. -/
def maxCodes : Nat := 4096

/-- How many bits the next code has. With `early` it widens one code before the table needs it. -/
def Table.width (t : Table) (early : Bool) : Nat :=
  max 9 (min 12 ((t.next + early.toNat).log2 + 1))

/-- The sequence of a code. The code that is about to be given out stands for the previous sequence
with its own first byte behind it. -/
def Table.sequence? (t : Table) (code : Nat) : Option Bytes :=
  if code < 256 then some [UInt8.ofNat code]
  else if code < 258 then none
  else
    match t.sequences[code - 258]? with
    | some s => some s
    | none =>
      match t.previous with
      | some p => if code = t.next then some (p ++ p.take 1) else none
      | none => none

/-- Takes note of a sequence that was read. -/
def Table.extend (t : Table) (s : Bytes) : Table :=
  match t.previous with
  | some p =>
    if t.next < maxCodes then ⟨t.sequences.push (p ++ s.take 1), some s⟩ else { t with previous := some s }
  | none => { t with previous := some s }

/-- Codes up to the end code, the end of the data or a code that stands for nothing. `begun` are the
sequences read since the table was empty, the latest first. They are given out when the table is
emptied again and at either end, so a code that stands for nothing loses them. -/
def decompressFrom (early : Bool) : Nat → (begun : List Bytes) → Table → Bits → Bytes
  | 0, _, _, _ => []
  | fuel + 1, begun, t, bits =>
    match Bits.takeHigh? (t.width early) bits with
    | none => begun.reverse.flatten
    | some (code, bits) =>
      if code = clearCode then begun.reverse.flatten ++ decompressFrom early fuel [] .empty bits
      else if code = endCode then begun.reverse.flatten
      else
        match t.sequence? code with
        | some s => decompressFrom early fuel (s :: begun) (t.extend s) bits
        | none => []

def decompress (early : Bool) (bs : Bytes) : Bytes :=
  let bits := Bits.ofBytesHigh bs
  decompressFrom early (bits.length + 1) [] .empty bits

end Lzw

end Marginalia
