import Marginalia.Syntax.Byte

/-!
Rows of pixels stored as differences from their neighbours, each row behind a byte that says from
which.
-/

namespace Marginalia

namespace PngRows

/-- What is wrong with rows: an unknown kind of prediction, or a row that ends too early. -/
inductive Fault where
  | unknownKind (kind : UInt8)
  | shortRow
deriving DecidableEq, Repr

/-- What a byte is stored as the difference from. -/
inductive Prediction where
  | nothing
  | left
  | above
  | halfAbove
  | nearest

/-- The prediction for the first byte of a row. -/
def Prediction.ofByte? : UInt8 → Option Prediction
  | 0 => some nothing
  | 1 => some left
  | 2 => some above
  | 3 => some halfAbove
  | 4 => some nearest
  | _ => none

/-- The neighbour, of left, above and upper left, that is nearest to their linear prediction. -/
def paeth (left above corner : UInt8) : UInt8 :=
  let a := left.toNat
  let b := above.toNat
  let c := corner.toNat
  let p : Int := (a : Int) + b - c
  let da := (p - a).natAbs
  let db := (p - b).natAbs
  let dc := (p - c).natAbs
  if da ≤ db && da ≤ dc then left else if db ≤ dc then above else corner

/-- The predicted byte. The third kind takes the left byte whole and half of the one above. -/
def Prediction.byte (kind : Prediction) (left above corner : UInt8) : UInt8 :=
  match kind with
  | nothing => 0
  | .left => left
  | .above => above
  | halfAbove => left + above / 2
  | nearest => paeth left above corner

/-- The bytes of a row. `done` holds those before, the latest first, and `above` the whole row above,
`pixel` being the number of bytes between neighbours. -/
def row (kind : Prediction) (pixel : Nat) (above : Array UInt8) (done : Bytes) : Bytes → Bytes
  | [] => done.reverse
  | c :: cs =>
    let i := done.length
    let left := if i < pixel then 0 else done.getD (pixel - 1) 0
    let corner := if i < pixel then 0 else above.getD (i - pixel) 0
    row kind pixel above ((c + kind.byte left (above.getD i 0) corner) :: done) cs

/-- All rows, each of `width` bytes behind its kind. What `above` does not have counts as zero. -/
def rowsFrom (pixel width : Nat) : Nat → (above : Bytes) → Bytes → Except Fault Bytes
  | 0, _, _ => .ok []
  | _ + 1, _, [] => .ok []
  | fuel + 1, above, first :: cs =>
    match Prediction.ofByte? first with
    | none => .error (.unknownKind first)
    | some kind =>
      if cs.length < width then .error .shortRow
      else do
        let pixels := row kind pixel above.toArray [] (cs.take width)
        return pixels ++ (← rowsFrom pixel width fuel pixels (cs.drop width))

/-- The pixels of rows of `width` bytes. Above the first row are zeros. -/
def decode (pixel width : Nat) (bs : Bytes) : Except Fault Bytes :=
  rowsFrom pixel width (bs.length + 1) [] bs

end PngRows

end Marginalia
