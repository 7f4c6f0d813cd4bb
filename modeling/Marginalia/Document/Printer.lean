import Marginalia.Document.CrossReference
import Marginalia.Document.Store
import Marginalia.Object.Printer

/-!
Writing a document as a file: a header, the objects in the order of their numbers, and a
cross-reference of the kind that the document came with.
-/

namespace Marginalia

namespace DocumentPrinter

variable {α : Type}

/-- The types of the objects that belong to a file and not to its document. -/
def structuralTypes : List Bytes :=
  [Syntax.ascii "ObjStm", Syntax.ascii "XRef", Syntax.ascii "Linearized"]

/-- Whether an object belongs to the file it came from, so that it is not written to another. -/
def isStructural (v : Object α) : Bool :=
  match v.entries?.bind Dict.typeName? with
  | some n => structuralTypes.contains n
  | none => false

/-- A file under way: its size, its pieces with the latest first, and where its objects are. -/
structure Draft where
  size : Nat
  pieces : List Bytes
  places : CrossReference

def Draft.append (f : Draft) (bs : Bytes) : Draft :=
  { f with size := f.size + bs.length, pieces := bs :: f.pieces }

def Draft.bytes (f : Draft) : Bytes := f.pieces.reverse.flatten

/-- The second line shows that the file is not text. -/
def header : Bytes :=
  Syntax.ascii "%PDF-1.7\n" ++ [0x25, 0xBB, 0xAD, 0xC0, 0xDE, 0x0A]

def Draft.start : Draft := ⟨header.length, [header], []⟩

def indirect [Scalar α] (id : ObjectId) (v : Object α) : Bytes :=
  Syntax.ascii (toString id.number ++ " " ++ toString id.generation ++ " obj\n") ++ v.print ++
    Syntax.ascii "\nendobj\n"

/-- Writes an object. Of two with one number the later is in the cross-reference. -/
def Draft.object [Scalar α] (f : Draft) (id : ObjectId) (v : Object α) : Draft :=
  { f.append (indirect id v) with
    places := CrossReference.insertSorted id.number (.offset f.size id.generation) f.places }

/-- The objects of a document. -/
def Draft.objects [Scalar α] (f : Draft) (d : Document α) : Draft :=
  d.objects.foldl (fun f e => if isStructural e.2 then f else f.object e.1 e.2) f

/-- Rows of consecutive numbers. -/
def runs : CrossReference → List (Nat × List Place)
  | [] => []
  | (n, p) :: rest =>
    match runs rest with
    | (m, ps) :: more => if m = n + 1 then (n, p :: ps) :: more else (n, [p]) :: (m, ps) :: more
    | [] => [(n, [p])]

/-- A number in decimal digits with zeros in front. -/
def padded (width n : Nat) : String :=
  let ds := Decimal.digitsOf n
  String.ofList (List.replicate (width - ds.length) '0' ++ ds)

def tableLine : Place → String
  | .offset position generation => padded 10 position ++ " " ++ padded 5 generation ++ " n \n"
  | .inStream .. => padded 10 0 ++ " " ++ padded 5 65535 ++ " f \n"

/-- The table of a file, whose entry zero is never in use. -/
def table (places : CrossReference) : String :=
  let section_ (e : Nat × List Place) : String :=
    toString e.1 ++ " " ++ toString e.2.length ++ "\n" ++ String.join (e.2.map tableLine)
  "xref\n0 1\n" ++ padded 10 0 ++ " " ++ padded 5 65535 ++ " f \n" ++
    String.join ((runs places).map section_)

def finish (f : Draft) (position : Nat) : Bytes :=
  (f.append (Syntax.ascii ("\nstartxref\n" ++ toString position ++ "\n%%EOF"))).bytes

/-- The places that the cross-reference tells: those of objects numbered from one up to the highest
number of the document. -/
def Draft.numbered (f : Draft) (d : Document α) : CrossReference :=
  f.places.filter fun e => e.1 ≠ 0 && e.1 ≤ d.maxNumber

/-- A file with a table and a trailer. -/
def withTable [Scalar α] (f : Draft) (d : Document α) : Bytes :=
  let trailer := d.trailer.set "Size" (.int (d.maxNumber + 1))
  finish (f.append (Syntax.ascii (table (f.numbered d) ++ "trailer\n") ++ (Object.dict trailer).print)) f.size

/-- A number in so many bytes, the most significant first. -/
def bigEndian (width n : Nat) : Bytes :=
  (List.range width).map fun i => UInt8.ofNat (n / 256 ^ (width - 1 - i))

def streamRow : Place → Bytes
  | .offset position generation => 1 :: bigEndian 4 position ++ bigEndian 2 generation
  | .inStream container index => 2 :: bigEndian 4 container ++ bigEndian 2 index

/-- A file with a cross-reference stream, which is one more object and has the trailer for its
dictionary. -/
def withStream [Scalar α] (f : Draft) (d : Document α) : Bytes :=
  let number := d.maxNumber + 1
  let rows := runs (CrossReference.insertSorted number (.offset f.size 0) (f.numbered d))
  let data := rows.flatMap fun e => e.2.flatMap streamRow
  let index : List (Object α) := rows.flatMap fun e => [.int e.1, .int e.2.length]
  let trailer := ((d.trailer.set "Type" (.nameOf "XRef")).set "Size" (.int (number + 1))).set "W"
    (.array [.int 1, .int 4, .int 2])
  let entries := ((trailer.set "Index" (.array index)).erase "Filter").set "Length" (.int data.length)
  finish (f.append (indirect ⟨number, 0⟩ (.stream entries data))) f.size

end DocumentPrinter

open DocumentPrinter in
/-- The file that a document is written as. -/
def Document.print {α : Type} [Scalar α] (d : Document α) : Bytes :=
  let f := Draft.start.objects d
  if d.streamed then withStream f d else withTable f d

end Marginalia
