import Marginalia.Filter.Ascii85
import Marginalia.Filter.Inflate
import Marginalia.Filter.Lzw
import Marginalia.Filter.PngRows
import Marginalia.Object.Basic

/-!
The data of a stream with the filters taken off that its dictionary names.
-/

namespace Marginalia

/-- Why the filters of a stream cannot be taken off. -/
inductive DecodeError where
  | noFilter
  | wrongKind (expected found : String)
  | unknownFilter
  | rows (fault : PngRows.Fault)
  | groups (fault : Ascii85.Fault)
deriving DecidableEq, Repr

namespace DecodeError

/-- The words for data that ends where more is needed. -/
def shortData : String := "IO error: failed to fill whole buffer"

def message : DecodeError → String
  | noFilter => "missing required dictionary key \"Filter\""
  | wrongKind expected found =>
    "object has wrong type; expected type " ++ expected ++ " but found type " ++ found
  | unknownFilter => "missing feature of lopdf: decompression algorithms; please open an issue at " ++
      "https://github.com/J-F-Liu/lopdf/ to let the developers know of your usecase"
  | rows (.unknownKind kind) => "IO error: invalid PNG filter type (" ++ toString kind.toNat ++ ")"
  | rows .shortRow => shortData
  | groups fault =>
    "couldn't decompress stream decoding ASCII85 encoded stream failed: " ++ fault.message

end DecodeError

namespace StreamData

variable {α : Type}

/-- The names of the filters in the order in which they are taken off. -/
def filters (entries : Dict α) : Except DecodeError (List Bytes) :=
  match entries.get? "Filter" with
  | none => .error .noFilter
  | some (.name n) => .ok [n]
  | some (.array items) => items.mapM fun v =>
    match v with
    | .name n => .ok n
    | _ => .error (.wrongKind "Name" v.kindName)
  | some v => .error (.wrongKind "Name or Array" v.kindName)

/-- The parameters of the filters, if they are written in place. -/
def parameters (entries : Dict α) : Dict α :=
  match entries.get? "DecodeParms" with
  | some (.dict params) => params
  | _ => []

def intOr (params : Dict α) (key : String) (default : Int) : Int :=
  ((params.get? key).bind Object.int?).getD default

/-- A size as a word of 64 bits. -/
def sizeWord (n : Nat) : Nat := n % 2 ^ 64

/-- Undoes the prediction of rows, if the parameters ask for it. -/
def unpredict (params : Dict α) (bs : Bytes) : Except DecodeError Bytes :=
  let predictor := intOr params "Predictor" 1
  if 10 ≤ predictor && predictor ≤ 15 then
    let columns := (max 1 (intOr params "Columns" 1)).toNat
    let colors := (max 1 (intOr params "Colors" 1)).toNat
    let depth := (max 8 (intOr params "BitsPerComponent" 8)).toNat
    let pixel := sizeWord (colors * depth) / 8
    (PngRows.decode pixel (sizeWord (pixel * columns)) bs).mapError .rows
  else .ok bs

/-- Takes one filter off. -/
def unfilter (params : Dict α) (bs : Bytes) (filter : Bytes) : Except DecodeError Bytes :=
  if filter == Syntax.ascii "FlateDecode" then unpredict params (Zlib.decompress bs)
  else if filter == Syntax.ascii "LZWDecode" then
    unpredict params (Lzw.decompress (intOr params "EarlyChange" 1 != 0) bs)
  else if filter == Syntax.ascii "ASCII85Decode" then (Ascii85.decode bs).mapError .groups
  else .error .unknownFilter

/-- The data without its filters. There must be an entry for them, and an empty list of them leaves
no data. -/
def decode (entries : Dict α) (bs : Bytes) : Except DecodeError Bytes := do
  match ← filters entries with
  | [] => return []
  | names => names.foldlM (unfilter (parameters entries)) bs

def decode? (entries : Dict α) (bs : Bytes) : Option Bytes := (decode entries bs).toOption

/-- The data of a stream that may have filters. -/
def plain (entries : Dict α) (bs : Bytes) : Except DecodeError Bytes :=
  if entries.has "Filter" then decode entries bs else .ok bs

def plain? (entries : Dict α) (bs : Bytes) : Option Bytes := (plain entries bs).toOption

end StreamData

end Marginalia
