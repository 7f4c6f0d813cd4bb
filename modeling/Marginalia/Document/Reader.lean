import Marginalia.Document.CrossReference
import Marginalia.Document.Error
import Marginalia.Document.Store
import Marginalia.Text.Blank

/-!
Reading a document out of a file. What belongs to the file as a whole has to be in order: the header,
the end and the cross-references. An object that cannot be read is passed over.
-/

namespace Marginalia

namespace DocumentReader

open ObjectReader

variable {α : Type}

def headerWord : Bytes := Syntax.ascii "%PDF-"

/-- The input from the first place on where a word stands. -/
def from? (word : Bytes) : Bytes → Option Bytes
  | [] => none
  | c :: cs => if word.isPrefixOf (c :: cs) then some (c :: cs) else from? word cs

/-- The last place at which a word stands, `i` being that of the input. -/
def lastPlace? (word : Bytes) (i : Nat) : Bytes → Option Nat
  | [] => none
  | c :: cs =>
    match lastPlace? word (i + 1) cs with
    | some k => some k
    | none => if word.isPrefixOf (c :: cs) then some i else none

/-- The last place, from one on, at which a word stands. -/
def lastFrom? (word : Bytes) (start : Nat) (file : Bytes) : Option Nat :=
  lastPlace? word start (file.drop start)

/-- Whether the file begins with a line that tells its version. -/
def hasHeader (file : Bytes) : Bool :=
  match expect? headerWord file with
  | some r =>
    (Utf8.decode? (r.takeWhile fun c => !Syntax.isLineEnd c)).isSome &&
      (lineEnd? (r.dropWhile fun c => !Syntax.isLineEnd c)).isSome
  | none => false

def skipSpaces (bs : Bytes) : Bytes := bs.dropWhile (· == 0x20)

/-- How much of the end of a file is searched for the mark of its end. -/
def endLength : Nat := 512

/-- How far in front of that mark the position of the cross-reference is looked for. -/
def startDistance : Nat := 25

/-- Where the file says its cross-reference to be. -/
def startPosition? (file : Bytes) : Option Nat := do
  let mark ← lastFrom? (Syntax.ascii "%%EOF") (file.length - endLength) file
  if mark ≤ startDistance then none
  else
    let start ← lastFrom? (Syntax.ascii "startxref") (mark - startDistance) file
    let r ← lineEnd? (← expect? (Syntax.ascii "startxref") (file.drop start))
    let (position, r) ← integer? (skipSpaces r)
    let r ← lineEnd? (skipSpaces r)
    let _ ← expect? (Syntax.ascii "%%EOF") r
    if 0 ≤ position && position ≤ file.length then some position.toNat else none

/-- An object as it was read. A stream whose length was not known yet remembers where its data
begins. -/
structure Loaded (α : Type) where
  id : ObjectId
  object : Object α
  dataStart : Option Nat

def skipTabs (bs : Bytes) : Bytes := bs.dropWhile fun c => c == 0x20 || c == 9

/-- A dictionary in front of the data of a stream, and what follows the line of its `stream`. -/
def streamHead? [Scalar α] (bs : Bytes) : Option (Dict α × Bytes) :=
  match value? true (fuelFor bs) bs with
  | some (.dict entries, r) => do
    let r ← expect? (Syntax.ascii "stream") (skipBlank r)
    return (entries, ← lineEnd? (skipTabs r))
  | _ => none

/-- So many bytes of data, if the end of the stream is right behind them. -/
def streamData? (length : Nat) (bs : Bytes) : Option Bytes :=
  if bs.length < length then none
  else
    let r := bs.drop length
    (expect? (Syntax.ascii "endstream") ((lineEnd? r).getD r)).map fun _ => bs.take length

/-- The objects of an index of numbers and places, as far as they can be read. -/
def memberList [Scalar α] (data : Bytes) : List (Option Nat) → List (ObjectId × Object α)
  | some number :: some offset :: rest =>
    let r := data.drop offset
    match value? true (fuelFor r) r with
    | some (v, _) => (⟨number, 0⟩, v) :: memberList data rest
    | none => memberList data rest
  | _ :: _ :: rest => memberList data rest
  | _ => []

/-- The objects that a stream of objects holds, the later of two with one number. -/
def members? [Scalar α] (entries : Dict α) (data : Bytes) : Option (List (ObjectId × Object α)) := do
  if data.isEmpty then return []
  let first ← (entries.get? "First").bind Object.int?
  let _ ← (entries.get? "N").bind Object.int?
  if first < 0 || (data.length : Int) < first then none
  let index ← Utf8.decode? (data.take first.toNat)
  let numbers := (Unicode.words index).map fun w => (Decimal.parseNat? w).bind fun n =>
    if n < 4294967296 then some n else none
  return (memberList (data.drop first.toNat) numbers).foldl
    (fun objects e => Document.insertSorted e.1 e.2 objects) []

/-- A stream with its filters taken off for good, if they can be. -/
def unfiltered (entries : Dict α) (data : Bytes) : Dict α × Bytes :=
  match StreamData.decode? entries data with
  | some plain =>
    (((entries.erase "DecodeParms").erase "Filter").set "Length" (.int plain.length), plain)
  | none => (entries, data)

/-- What an object holds under a number, if it is a stream of objects. -/
def member? [Scalar α] (container : Object α) (id : ObjectId) : Option (Object α) := do
  let (entries, data) ← container.stream?
  if !entries.hasName "Type" "ObjStm" then none
  let (entries, data) := unfiltered entries data
  ((← members? entries data).find? fun e => e.1 == id).map Prod.snd

/-- The object at a place of the file, under the number that stands there. The length of a stream may
be another object, also one in a stream of objects; `seen` are those under way, and the fuel bounds
them. -/
def loadAt? [Scalar α] (file : Bytes) (refs : CrossReference) : Nat → (seen : List ObjectId) → Nat →
    Option (Loaded α)
  | 0, _, _ => none
  | fuel + 1, seen, position => do
    if file.length < position then none
    else
      let (number, r) ← unsigned? 4294967296 (skipBlank (file.drop position))
      let (generation, r) ← unsigned? 65536 (skipBlank r)
      let r ← expect? (Syntax.ascii "obj") (skipBlank r)
      let r := skipBlank r
      let id : ObjectId := ⟨number, generation⟩
      let plain := (value? true (fuelFor r) r).map fun (v, _) => Loaded.mk id v none
      match streamHead? r with
      | none => plain
      | some (entries, body) =>
        let length : Option Int := match entries.get? "Length" with
          | some (.int n) => some n
          | some (.ref lengthId) =>
            if seen.contains lengthId then none
            else
              let load (p : Nat) : Option (Loaded α) := loadAt? file refs fuel (lengthId :: seen) p
              match refs.find? lengthId.number with
              | some (.offset p g) => do
                let l ← load p
                if g = lengthId.generation && l.id = lengthId then l.object.int? else none
              | some (.inStream container _) =>
                match refs.find? container with
                | some (.offset p _) => do (← member? (← load p).object lengthId).int?
                | _ => none
              | none => none
          | _ => none
        match length with
        | none => some ⟨id, .stream entries [], some (file.length - body.length)⟩
        | some n =>
          if n < 0 then none
          else match streamData? n.toNat body with
            | some data => some ⟨id, .streamOf entries data, none⟩
            | none => plain

def load? [Scalar α] (file : Bytes) (refs : CrossReference) (position : Nat) : Option (Loaded α) :=
  loadAt? file refs (refs.length + 2) [] position

/-- What a place says about where the objects are. -/
structure Section (α : Type) where
  refs : CrossReference
  trailer : Dict α
  streamed : Bool

/-- The cross-reference at a place. -/
def sectionAt [Scalar α] (file : Bytes) (position : Nat) : Except FileFault (Section α) :=
  match CrossReferenceTable.read? (file.drop position) with
  | some (refs, trailer) => .ok ⟨refs, trailer, false⟩
  | none =>
    match (load? file [] position : Option (Loaded α)) with
    | some ⟨_, .stream entries data, _⟩ => do
      let (refs, trailer) ← CrossReferenceStream.read entries data
      return ⟨refs, trailer, true⟩
    | some _ => .error .badReferences
    | none => .error .noTrailer

/-- A place that an entry of a trailer gives; none if it is no integer. -/
def linkedPlace? (file : Bytes) (value : Option (Object α)) (fault : FileFault) :
    Except FileFault (Option Nat) :=
  match value.bind Object.int? with
  | none => .ok none
  | some n => if n < 0 || file.length < n then .error fault else .ok (some n.toNat)

/-- Adds the older cross-references that `Prev` leads to, and the one in a stream that the newest
trailer names beside the first of them. -/
def addOlder [Scalar α] (file : Bytes) : Nat → (seen : List Nat) → (prev hybrid : Option (Object α)) →
    CrossReference → Except FileFault CrossReference
  | 0, _, _, _, refs => .ok refs
  | fuel + 1, seen, prev, hybrid, refs => do
    match ← linkedPlace? file prev .badPrevious with
    | none => return refs
    | some position =>
      if seen.contains position then return refs
      else
        let older : Section α ← sectionAt file position
        let refs := refs.merge older.refs
        let refs ← match ← linkedPlace? file hybrid .badHybrid with
          | none => pure refs
          | some position => do
            let other : Section α ← sectionAt file position
            pure (refs.merge other.refs)
        addOlder file fuel (position :: seen) (older.trailer.get? "Prev") none refs

/-- What reading the objects has given so far: the objects, those that came in streams, and the
streams whose length is still to be found. -/
structure Gathered (α : Type) where
  objects : List (ObjectId × Object α)
  members : List (ObjectId × Object α)
  pending : List (ObjectId × Nat)

def Gathered.put (g : Gathered α) (id : ObjectId) (v : Object α) : Gathered α :=
  { g with objects := Document.insertSorted id v g.objects }

/-- Takes an object in. A stream of objects is unpacked, and dropped if that fails. -/
def Gathered.add [Scalar α] (g : Gathered α) (l : Loaded α) : Gathered α :=
  match l.object.stream? with
  | some (entries, data) =>
    if entries.hasName "Type" "ObjStm" then
      let (entries, data) := unfiltered entries data
      match members? entries data with
      | some members =>
        { g.put l.id (.stream entries data) with members := g.members ++ members }
      | none => g
    else
      match l.dataStart with
      | some start => { g.put l.id l.object with pending := g.pending ++ [(l.id, start)] }
      | none => g.put l.id l.object
  | none => g.put l.id l.object

def gather [Scalar α] (file : Bytes) (refs : CrossReference) : Gathered α :=
  refs.foldl (fun g e =>
    match e.2 with
    | .offset position _ =>
      match load? file refs position with
      | some l => g.add l
      | none => g
    | .inStream .. => g) ⟨[], [], []⟩

/-- Takes in an object that came in a stream, which never replaces another. -/
def addMember (objects : List (ObjectId × Object α)) (e : ObjectId × Object α) :
    List (ObjectId × Object α) :=
  if objects.any fun o => o.1 == e.1 then objects else Document.insertSorted e.1 e.2 objects

/-- Gives a stream its data once its length can be looked up in the document. -/
def fillPending (file : Bytes) (d : Document α) (e : ObjectId × Nat) : Document α :=
  match (d.stored? e.1).bind Object.stream? with
  | some (entries, _) =>
    match (entries.get? "Length").map d.deref with
    | some (.int n) =>
      if n < 0 || (file.length : Int) < e.2 + n then d
      else d.put e.1 (.streamOf entries ((file.drop e.2).take n.toNat))
    | _ => d
  | none => d

/-- The only object that is read from an encrypted file, which has to be readable. It goes by the
number that stands at its place. -/
def encryptionObject [Scalar α] (file : Bytes) (refs : CrossReference) (v : Object α) :
    Except FileFault (List (ObjectId × Object α)) :=
  match v with
  | .ref id =>
    match refs.find? id.number with
    | some (.offset position _) =>
      match load? file refs position with
      | some l => .ok [(l.id, l.object)]
      | none => .error (if file.length < position then .outside else .badObject position)
    | _ => .ok []
  | _ => .ok []

/-- The document that a cross-reference with its trailer gives. -/
def assemble [Scalar α] (file : Bytes) (s : Section α) : Except FileFault (Document α) := do
  match s.trailer.get? "Encrypt" with
  | some v => return ⟨← encryptionObject file s.refs v, s.trailer, s.refs.maxNumber, s.streamed⟩
  | none =>
    let g := gather file s.refs
    let objects := g.members.foldl addMember g.objects
    return g.pending.foldl (fillPending file) ⟨objects, s.trailer, s.refs.maxNumber, s.streamed⟩

/-- The document in a file, whatever stands in front of its header. -/
def read [Scalar α] (file : Bytes) : Except FileFault (Document α) := do
  let file := (from? headerWord file).getD file
  if !hasHeader file then throw .noHeader
  match startPosition? file with
  | none => throw .badStart
  | some position =>
    let newest : Section α ← sectionAt file position
    let prev := newest.trailer.get? "Prev"
    let refs ← addOlder file (file.length + 2) [] prev (newest.trailer.get? "XRefStm") newest.refs
    if CrossReference.numberBound ≤ refs.maxNumber then throw .badReferences
    let trailer := newest.trailer.erase "Prev"
    let trailer := if (prev.bind Object.int?).isSome then trailer.erase "XRefStm" else trailer
    assemble file { newest with refs, trailer }

end DocumentReader

namespace Document

variable {α : Type} [Scalar α]

open DocumentReader

/-- The document in a file. -/
def load (file : Bytes) : Except DocumentError (Document α) :=
  (DocumentReader.read file).mapError fun fault => .parse fault.message

/-- Whether the trailer leads to a dictionary of encryption. -/
def isEncrypted (d : Document α) : Bool :=
  match d.trailer.get? "Encrypt" with
  | some (.ref id) => (d.getDict? id).isSome
  | _ => false

/-- The document in a file that is not encrypted. -/
def ofFile (file : Bytes) : Except DocumentError (Document α) := do
  let d ← load file
  if d.isEncrypted then .error .encrypted else return d

end Document

end Marginalia
