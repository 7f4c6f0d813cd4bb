import Marginalia.Filter.Bits

/-!
Decompression of deflated data. A fault does not lose what was decompressed before it, so every stage
tells its output beside the reason for which it stopped.
-/

namespace Marginalia

namespace Inflate

/-- Why decompression stopped before its end: the data ran out, or it is not deflated data. -/
inductive Stop where
  | truncated
  | corrupt
deriving DecidableEq, Repr

/-- The bits still to be read and the output, the latest byte first. -/
structure State where
  bits : Bits
  out : Bytes

/-- A stage that succeeds, or stops with the output so far. -/
abbrev Outcome (β : Type) := Except (Stop × Bytes) β

def State.field (s : State) (n : Nat) : Outcome (Nat × State) :=
  match Bits.takeLow? n s.bits with
  | some (v, bits) => .ok (v, { s with bits })
  | none => .error (.truncated, s.out)

def State.corrupt {β : Type} (s : State) : Outcome β := .error (.corrupt, s.out)

/-- A canonical prefix code: for each length from one on, how many codes have it; and the symbols in
the order of their codes. -/
structure PrefixCode where
  counts : List Nat
  symbols : Array Nat

namespace PrefixCode

/-- The longest code. -/
def maxLength : Nat := 15

/-- The code in which the symbol `i` has the `i`-th length; zero means that it has no code. -/
def ofLengths (lengths : List Nat) : PrefixCode :=
  let widths := (List.range maxLength).map (· + 1)
  let numbered := lengths.zip (List.range lengths.length)
  ⟨widths.map fun w => lengths.countP (· == w),
    (widths.flatMap fun w => (numbered.filter fun e => e.1 == w).map Prod.snd).toArray⟩

/-- Whether the codes fill the code space. -/
def isComplete (c : PrefixCode) : Bool :=
  c.counts.foldl (fun total count => 2 * (total + count)) 0 == 2 ^ (maxLength + 1)

/-- Whether there is at most one symbol, whose code then has no bit but zeros. -/
def isSparse (c : PrefixCode) : Bool := c.symbols.size ≤ 1

/-- Whether a bit leads to no code at all. -/
def isDead (c : PrefixCode) (bit : Bool) : Bool :=
  c.isSparse && (bit || c.symbols.isEmpty)

/-- Reads one symbol. Among the codes of a length the first is `first`, and its symbol is the
`index`-th of all. -/
def readFrom (c : PrefixCode) (s : State) : (counts : List Nat) → (code first index : Nat) → Bits →
    Outcome (Nat × State)
  | [], _, _, _, _ => s.corrupt
  | _ :: _, _, _, _, [] => .error (.truncated, s.out)
  | count :: counts, code, first, index, b :: bits =>
    let code := code + b.toNat
    if c.isDead b then s.corrupt
    else if code < first + count then
      match c.symbols[index + (code - first)]? with
      | some symbol => .ok (symbol, { s with bits })
      | none => s.corrupt
    else readFrom c s counts (2 * code) (2 * (first + count)) (index + count) bits

def read (c : PrefixCode) (s : State) : Outcome (Nat × State) :=
  c.readFrom s c.counts 0 0 0 s.bits

end PrefixCode

/-- The shortest length that each length symbol stands for, and how many bits are added to it. -/
def lengthTable : Array (Nat × Nat) :=
  #[(3, 0), (4, 0), (5, 0), (6, 0), (7, 0), (8, 0), (9, 0), (10, 0), (11, 1), (13, 1), (15, 1),
    (17, 1), (19, 2), (23, 2), (27, 2), (31, 2), (35, 3), (43, 3), (51, 3), (59, 3), (67, 4), (83, 4),
    (99, 4), (115, 4), (131, 5), (163, 5), (195, 5), (227, 5), (258, 0)]

/-- The shortest distance that each distance symbol stands for, and how many bits are added to it. -/
def distanceTable : Array (Nat × Nat) :=
  #[(1, 0), (2, 0), (3, 0), (4, 0), (5, 1), (7, 1), (9, 2), (13, 2), (17, 3), (25, 3), (33, 4), (49, 4),
    (65, 5), (97, 5), (129, 6), (193, 6), (257, 7), (385, 7), (513, 8), (769, 8), (1025, 9), (1537, 9),
    (2049, 10), (3073, 10), (4097, 11), (6145, 11), (8193, 12), (12289, 12), (16385, 13), (24577, 13)]

/-- A number given by a symbol and the bits behind it. -/
def tableValue (table : Array (Nat × Nat)) (symbol : Nat) (s : State) : Outcome (Nat × State) :=
  match table[symbol]? with
  | some (base, extra) => do
    let (v, s) ← s.field extra
    return (base + v, s)
  | none => s.corrupt

/-- Repeats output from a distance back: the bytes since then, over and over. In front of the output
there are zeros. -/
def repeatBack (distance length : Nat) (out : Bytes) : Bytes :=
  let recent := out.take distance
  let period := (recent ++ List.replicate (distance - recent.length) 0).reverse.toArray
  (List.range length).foldl (fun out i => period.getD (i % distance) 0 :: out) out

/-- Literals and repetitions up to the end of their block. -/
def symbols (literals distances : PrefixCode) : Nat → State → Outcome State
  | 0, s => s.corrupt
  | fuel + 1, s => do
    let (symbol, next) ← literals.read s
    if symbol < 256 then symbols literals distances fuel { next with out := UInt8.ofNat symbol :: next.out }
    else if symbol = 256 then return next
    else
      let (length, next) ← tableValue lengthTable (symbol - 257) next
      let (symbol, next) ← distances.read next
      let (distance, next) ← tableValue distanceTable symbol next
      symbols literals distances fuel { next with out := repeatBack distance length s.out }

/-- The code lengths of the literals when a block gives none. -/
def fixedLiterals : PrefixCode :=
  .ofLengths (List.replicate 144 8 ++ List.replicate 112 9 ++ List.replicate 24 7 ++ List.replicate 8 8)

/-- The last two of these codes stand for no distance. -/
def fixedDistances : PrefixCode :=
  .ofLengths (List.replicate 32 5)

/-- The order in which the lengths of the code for code lengths are given. -/
def lengthOrder : List Nat :=
  [16, 17, 18, 0, 8, 7, 9, 6, 10, 5, 11, 4, 12, 3, 13, 2, 14, 1, 15]

/-- So many fields of three bits. -/
def smallFields : Nat → State → Outcome (List Nat × State)
  | 0, s => .ok ([], s)
  | n + 1, s => do
    let (v, s) ← s.field 3
    let (vs, s) ← smallFields n s
    return (v :: vs, s)

/-- Code lengths, the latest first, until there are so many; three symbols repeat a length. -/
def codeLengths (code : PrefixCode) (count : Nat) : Nat → List Nat → State →
    Outcome (List Nat × State)
  | 0, _, s => s.corrupt
  | fuel + 1, acc, s =>
    if acc.length = count then .ok (acc, s)
    else if count < acc.length then s.corrupt
    else do
      let (symbol, s) ← code.read s
      if symbol < 16 then codeLengths code count fuel (symbol :: acc) s
      else
        let (value, bits, least) ← match symbol, acc with
          | 16, [] => s.corrupt
          | 16, v :: _ => Except.ok (v, 2, 3)
          | 17, _ => .ok (0, 3, 3)
          | _, _ => .ok (0, 7, 11)
        let (more, s) ← s.field bits
        codeLengths code count fuel (List.replicate (least + more) value ++ acc) s

/-- The two codes at the head of a block that brings its own. -/
def dynamicCodes (s : State) : Outcome (PrefixCode × PrefixCode × State) := do
  let (literalCount, s) ← s.field 5
  let (distanceCount, s) ← s.field 5
  let (lengthCount, s) ← s.field 4
  if 29 < literalCount || 29 < distanceCount then s.corrupt
  else
    let (given, s) ← smallFields (lengthCount + 4) s
    let placed := lengthOrder.zip given
    let meta_ := PrefixCode.ofLengths ((List.range 19).map fun i =>
      ((placed.find? fun e => e.1 == i).map Prod.snd).getD 0)
    if !meta_.isComplete then s.corrupt
    else
      let count := literalCount + 257 + (distanceCount + 1)
      let (lengths, s) ← codeLengths meta_ count (count + 1) [] s
      let lengths := lengths.reverse
      let literals := PrefixCode.ofLengths (lengths.take (literalCount + 257))
      let distances := PrefixCode.ofLengths (lengths.drop (literalCount + 257))
      let isUsable (c : PrefixCode) : Bool := c.isSparse || c.isComplete
      if isUsable literals && isUsable distances then return (literals, distances, s) else s.corrupt

/-- Bytes that are stored as they are. -/
def storedBytes : Nat → State → Outcome State
  | 0, s => .ok s
  | n + 1, s => do
    let (b, s) ← s.field 8
    storedBytes n { s with out := UInt8.ofNat b :: s.out }

def storedBlock (s : State) : Outcome State := do
  let s := { s with bits := s.bits.align }
  let (length, s) ← s.field 16
  let (complement, s) ← s.field 16
  if length + complement ≠ 65535 then s.corrupt else storedBytes length s

/-- One block of a kind. -/
def block (fuel kind : Nat) (s : State) : Outcome State :=
  match kind with
  | 0 => storedBlock s
  | 1 => symbols fixedLiterals fixedDistances fuel s
  | 2 => do
    let (literals, distances, s) ← dynamicCodes s
    symbols literals distances fuel s
  | _ => s.corrupt

/-- Blocks up to the last. Every block and symbol takes at least one bit, which bounds both. -/
def blocks (limit : Nat) : Nat → State → Outcome State
  | 0, s => s.corrupt
  | fuel + 1, s => do
    let (last, s) ← s.field 1
    let (kind, s) ← s.field 2
    let s ← block limit kind s
    if last = 1 then return s else blocks limit fuel s

end Inflate

namespace Zlib

open Inflate

/-- The checksum of a row of bytes: two sums modulo 65521. -/
def checksum (bs : Bytes) : Nat :=
  let (a, b) := bs.foldl (fun (a, b) c =>
    let a := (a + c.toNat) % 65521
    (a, (b + a) % 65521)) (1, 0)
  b * 65536 + a

/-- Output is given out by whole windows of this size, and no stream may ask for a larger one. -/
def window : Nat := 32768

/-- Whether two bytes begin a stream that this library decompresses. -/
def isHeader (method flags : UInt8) : Bool :=
  (method.toNat * 256 + flags.toNat) % 31 == 0 && method.toNat % 16 == 8 &&
    2 ^ (method.toNat / 16 + 8) ≤ window && !flags.toNat.testBit 5

/-- What a corrupt stream has given out. A window is given out when a byte behind it is there. -/
def givenOut (out : Bytes) : Bytes := out.take ((out.length - 1) / window * window)

/-- The decompressed bytes up to the end of the stream or to a fault in it. -/
def decompress : Bytes → Bytes
  | method :: flags :: rest =>
    if !isHeader method flags then []
    else
      let bits := Bits.ofBytesLow rest
      let fuel := bits.length + 1
      match blocks fuel fuel ⟨bits, []⟩ with
      | .ok s =>
        let out := s.out.reverse
        let tail := rest.drop (rest.length - s.bits.length / 8)
        match tail with
        | a :: b :: c :: d :: _ =>
          let stored := ((a.toNat * 256 + b.toNat) * 256 + c.toNat) * 256 + d.toNat
          if stored = checksum out then out else givenOut out
        | _ => out
      | .error (.truncated, out) => out.reverse
      | .error (.corrupt, out) => givenOut out.reverse
  | _ => []

end Zlib

end Marginalia
