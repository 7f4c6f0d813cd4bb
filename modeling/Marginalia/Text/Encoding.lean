import Marginalia.Syntax.Byte

/-!
Bytes to text and back: UTF-8 with the faults marked, big-endian UTF-16, and one byte per character.
-/

namespace Marginalia

namespace Utf8

/-- A multi-byte sequence under way: the bits so far, the bytes still due and the range that the
next one has to lie in. -/
structure Pending where
  bits : Nat
  due : Nat
  low : UInt8
  high : UInt8

inductive Lead where
  | ascii (c : Char)
  | opens (p : Pending)
  | invalid

/-- What a byte means at the start of a character. The ranges of the second byte exclude overlong
forms, surrogates and values above the last scalar. -/
def lead (b : UInt8) : Lead :=
  if b < 0x80 then .ascii (Char.ofNat b.toNat)
  else if 0xC2 ≤ b && b ≤ 0xDF then .opens ⟨(b - 0xC0).toNat, 1, 0x80, 0xBF⟩
  else if b == 0xE0 then .opens ⟨0, 2, 0xA0, 0xBF⟩
  else if b == 0xED then .opens ⟨0xD, 2, 0x80, 0x9F⟩
  else if 0xE1 ≤ b && b ≤ 0xEF then .opens ⟨(b - 0xE0).toNat, 2, 0x80, 0xBF⟩
  else if b == 0xF0 then .opens ⟨0, 3, 0x90, 0xBF⟩
  else if b == 0xF4 then .opens ⟨4, 3, 0x80, 0x8F⟩
  else if 0xF1 ≤ b && b ≤ 0xF3 then .opens ⟨(b - 0xF0).toNat, 3, 0x80, 0xBF⟩
  else .invalid

def Pending.accepts (p : Pending) (b : UInt8) : Bool :=
  p.low ≤ b && b ≤ p.high

def Pending.extend (p : Pending) (b : UInt8) : Pending :=
  ⟨p.bits * 64 + (b - 0x80).toNat, p.due - 1, 0x80, 0xBF⟩

/-- Reads characters; each broken sequence, up to the first byte that cannot continue it, gives one
`none`. -/
def read : Option Pending → Bytes → List (Option Char)
  | none, [] => []
  | some _, [] => [none]
  | pending, b :: bs =>
    let fresh : List (Option Char) × Option Pending := match lead b with
      | .ascii c => ([some c], none)
      | .opens p => ([], some p)
      | .invalid => ([none], none)
    match pending with
    | none => fresh.1 ++ read fresh.2 bs
    | some p =>
      if p.accepts b then
        let p := p.extend b
        if p.due = 0 then some (Char.ofNat p.bits) :: read none bs else read (some p) bs
      else none :: (fresh.1 ++ read fresh.2 bs)

/-- The text, if every sequence is well formed. -/
def decode? (bs : Bytes) : Option (List Char) :=
  (read none bs).mapM id

/-- The text, with U+FFFD for every broken sequence. -/
def decodeLossy (bs : Bytes) : List Char :=
  (read none bs).map fun c => c.getD '\uFFFD'

def encode (cs : List Char) : Bytes :=
  cs.flatMap fun c =>
    let n := c.toNat
    if n < 0x80 then [UInt8.ofNat n]
    else if n < 0x800 then [UInt8.ofNat (0xC0 + n / 64), UInt8.ofNat (0x80 + n % 64)]
    else if n < 0x10000 then
      [UInt8.ofNat (0xE0 + n / 4096), UInt8.ofNat (0x80 + n / 64 % 64), UInt8.ofNat (0x80 + n % 64)]
    else
      [UInt8.ofNat (0xF0 + n / 262144), UInt8.ofNat (0x80 + n / 4096 % 64),
        UInt8.ofNat (0x80 + n / 64 % 64), UInt8.ofNat (0x80 + n % 64)]

end Utf8

namespace Utf16

/-- Big-endian code units; an odd last byte is dropped. -/
def units : Bytes → List Nat
  | h :: l :: rest => (h.toNat * 256 + l.toNat) :: units rest
  | _ => []

def isHigh (u : Nat) : Bool := 0xD800 ≤ u && u < 0xDC00

def isLow (u : Nat) : Bool := 0xDC00 ≤ u && u < 0xE000

/-- Joins surrogate pairs; a surrogate without its partner becomes U+FFFD. -/
def ofUnits : List Nat → List Char
  | [] => []
  | [u] => [if isHigh u || isLow u then '\uFFFD' else Char.ofNat u]
  | u :: v :: rest =>
    if isHigh u then
      if isLow v then Char.ofNat (0x10000 + (u - 0xD800) * 1024 + (v - 0xDC00)) :: ofUnits rest
      else '\uFFFD' :: ofUnits (v :: rest)
    else (if isLow u then '\uFFFD' else Char.ofNat u) :: ofUnits (v :: rest)

def decode (bs : Bytes) : List Char :=
  ofUnits (units bs)

/-- The bytes of one code unit, high byte first. -/
def unitBytes (u : Nat) : Bytes :=
  [UInt8.ofNat (u / 256), UInt8.ofNat u]

def charUnits (c : Char) : List Nat :=
  let n := c.toNat
  if n < 0x10000 then [n]
  else [0xD800 + (n - 0x10000) / 1024, 0xDC00 + (n - 0x10000) % 1024]

def encode (cs : List Char) : Bytes :=
  cs.flatMap fun c => (charUnits c).flatMap unitBytes

end Utf16

namespace Latin1

/-- One character for every byte, with the byte as its code point. -/
def decode (bs : Bytes) : List Char :=
  bs.map fun b => Char.ofNat b.toNat

end Latin1

namespace TextString

/-- Text stored in a document: UTF-16 behind a byte order mark, otherwise UTF-8 if it is well
formed, otherwise one character per byte. -/
def decode (bs : Bytes) : String :=
  match bs with
  | 0xFE :: 0xFF :: rest => String.ofList (Utf16.decode rest)
  | _ =>
    match Utf8.decode? bs with
    | some cs => String.ofList cs
    | none => String.ofList (Latin1.decode bs)

def isAscii (cs : List Char) : Bool :=
  cs.all fun c => c.toNat < 0x80

/-- The bytes a text is stored as: its own when it is ASCII, UTF-16 behind a byte order mark
otherwise. -/
def encode (text : String) : Bytes :=
  let cs := text.toList
  if isAscii cs then Utf8.encode cs else 0xFE :: 0xFF :: Utf16.encode cs

end TextString

end Marginalia
