import Marginalia.Document.Error
import Marginalia.Object.Reader

/-!
Where the objects of a file are: tables in text and streams of numbers in binary, either of which comes
with a trailer.
-/

namespace Marginalia

/-- Where an object in use is kept. -/
inductive Place where
  | offset (position generation : Nat)
  | inStream (container index : Nat)
deriving DecidableEq, Repr

/-- Objects in use by number, in the order of their numbers. -/
abbrev CrossReference := List (Nat × Place)

namespace CrossReference

def find? (refs : CrossReference) (number : Nat) : Option Place :=
  (List.find? (fun e => e.1 == number) refs).map Prod.snd

/-- Puts a place under a number, in front of all that have a greater one. -/
def insertSorted (number : Nat) (place : Place) : CrossReference → CrossReference
  | [] => [(number, place)]
  | e :: rest =>
    if number = e.1 then (number, place) :: rest
    else if number < e.1 then (number, place) :: e :: rest
    else e :: insertSorted number place rest

def ofList (entries : List (Nat × Place)) : CrossReference :=
  entries.foldl (fun refs e => insertSorted e.1 e.2 refs) []

/-- Adds what an older cross-reference knows of objects that the newer one does not. -/
def merge (newer older : CrossReference) : CrossReference :=
  older.foldl (fun refs e => if (refs.find? e.1).isSome then refs else insertSorted e.1 e.2 refs) newer

/-- No object has this number or a greater one. -/
def numberBound : Nat := 4294967295

/-- The highest number in use. -/
def maxNumber (refs : CrossReference) : Nat :=
  refs.foldl (fun n e => max n e.1) 0

end CrossReference

namespace CrossReferenceTable

open ObjectReader

/-- One line of a table: two numbers, whether the object is in use, and one of three ends. -/
def entry? (bs : Bytes) : Option ((Nat × Nat × Bool) × Bytes) := do
  let (position, r) ← unsigned? 4294967296 bs
  let r ← expect? [0x20] r
  let (generation, r) ← unsigned? 4294967296 r
  let r ← expect? [0x20] r
  let (inUse, r) ← match r with
    | 0x6E :: r => some (true, r)
    | 0x66 :: r => some (false, r)
    | _ => none
  match r with
  | 0x20 :: 13 :: r => some ((position, generation, inUse), r)
  | 0x20 :: 10 :: r => some ((position, generation, inUse), r)
  | 13 :: 10 :: r => some ((position, generation, inUse), r)
  | _ => none

/-- As many lines as there are, for the numbers from `number` on. -/
def entries : Nat → (number : Nat) → List (Nat × Place) → Bytes → List (Nat × Place) × Bytes
  | 0, _, acc, bs => (acc.reverse, bs)
  | fuel + 1, number, acc, bs =>
    match entry? bs with
    | some ((position, generation, inUse), r) =>
      let found := (number % 4294967296, Place.offset position generation)
      entries fuel (number + 1) (if inUse && generation < 65536 then found :: acc else acc) r
    | none => (acc.reverse, bs)

/-- A section: the number it starts with, a count that is not relied on, and its lines. -/
def section? (bs : Bytes) : Option (List (Nat × Place) × Bytes) := do
  let (start, r) ← unsigned? (2 ^ 64) bs
  let r ← expect? [0x20] r
  let (_, r) ← unsigned? 4294967296 r
  let r ← lineEnd? ((expect? [0x20] r).getD r)
  return entries (fuelFor r) start [] r

def sections : Nat → List (Nat × Place) → Bytes → List (Nat × Place) × Bytes
  | 0, acc, bs => (acc, bs)
  | fuel + 1, acc, bs =>
    match section? bs with
    | some (found, r) => sections fuel (acc ++ found) r
    | none => (acc, bs)

/-- A table with the trailer behind it. -/
def read? {α : Type} [Scalar α] (bs : Bytes) : Option (CrossReference × Dict α) := do
  let r ← lineEnd? (← expect? (Syntax.ascii "xref") bs)
  let (first, r) ← section? r
  let (found, r) := sections (fuelFor r) first r
  let r ← expect? (Syntax.ascii "trailer") (skipBlank r)
  match value? false (fuelFor r) (skipBlank r) with
  | some (.dict trailer, _) =>
    let _ ← (Dict.get? trailer "Size").bind Object.int?
    return (CrossReference.ofList found, trailer)
  | _ => none

end CrossReferenceTable

namespace CrossReferenceStream

variable {α : Type}

def ints? (v : Object α) : Option (List Int) :=
  v.array?.bind fun items => items.mapM Object.int?

/-- A number of so many bytes, the most significant first, of which 32 bits are kept. -/
def field? (width : Nat) (bs : Bytes) : Option (Nat × Bytes) :=
  if bs.length < width then none
  else some ((bs.take width).foldl (fun n b => (n * 256 + b.toNat) % 4294967296) 0, bs.drop width)

/-- The widths of the three fields of an entry. -/
structure Widths where
  kind : Nat
  first : Nat
  second : Nat

/-- One entry; there is no place for an object that is not in use, and of an entry of an unknown kind
there is nothing but the kind. -/
def entry? (w : Widths) (bs : Bytes) : Option (Option Place × Bytes) := do
  let (kind, r) ← if w.kind = 0 then some (1, bs) else field? w.kind bs
  if 2 < kind then return (none, r)
  let (first, r) ← field? w.first r
  let (second, r) ← field? w.second r
  match kind with
  | 1 => return (some (.offset first (second % 65536)), r)
  | 2 => return (some (.inStream first (second % 65536)), r)
  | _ => return (none, r)

/-- So many entries for the numbers from `number` on, which are taken modulo 2 to the 32. -/
def entries? (w : Widths) : Nat → (number : Int) → Bytes → Option (List (Nat × Place) × Bytes)
  | 0, _, bs => some ([], bs)
  | count + 1, number, bs => do
    let (place, r) ← entry? w bs
    let (more, r) ← entries? w count (number + 1) r
    match place with
    | some p => return (((number % 4294967296).toNat, p) :: more, r)
    | none => return (more, r)

/-- The sections that a list of starts and counts gives. No more entries are looked for than can be
found, unless they take no data at all. -/
def sections? (w : Widths) : List Int → Bytes → Option (List (Nat × Place))
  | start :: count :: rest, bs => do
    let isEmpty := w.kind + w.first + w.second == 0
    let count := if isEmpty then count.toNat else min count.toNat (bs.length + 1)
    let (found, r) ← entries? w count start bs
    return found ++ (← sections? w rest r)
  | _, _ => some []

/-- The widths that a dictionary gives. -/
def widths? (entries : Dict α) : Option Widths := do
  match ← (entries.get? "W").bind ints? with
  | kind :: first :: second :: _ =>
    if kind < 0 || first < 0 || second < 0 then none
    else some ⟨kind.toNat, first.toNat, second.toNat⟩
  | _ => none

/-- The cross-reference in a stream, whose dictionary is the trailer. -/
def read (entries : Dict α) (data : Bytes) : Except FileFault (CrossReference × Dict α) := do
  let filtered := entries.has "Filter"
  let data ← (StreamData.plain entries data).mapError .referenceData
  let entries := if filtered then (entries.erase "DecodeParms").erase "Filter" else entries
  match (entries.get? "Size").bind Object.int?, widths? entries with
  | some size, some widths =>
    match sections? widths (((entries.get? "Index").bind ints?).getD [0, size]) data with
    | some found =>
      return (CrossReference.ofList found, ((entries.erase "Length").erase "W").erase "Index")
    | none => throw .shortReferences
  | _, _ => throw .badReferences

end CrossReferenceStream

end Marginalia
