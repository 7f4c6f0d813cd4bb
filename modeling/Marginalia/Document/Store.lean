import Marginalia.Object.Basic

/-!
A document in memory: its indirect objects in the order of their numbers, the trailer, and the highest
object number in use.
-/

namespace Marginalia

/-- `streamed` says that the document came with a cross-reference stream. -/
structure Document (α : Type) where
  objects : List (ObjectId × Object α)
  trailer : Dict α
  maxNumber : Nat
  streamed : Bool

/-- Why no object of the expected kind is reached. -/
inductive AccessError where
  | missing (id : ObjectId)
  | wrongKind (expected found : String)
  | tooManyReferences
  | noEntry (key : String)
deriving DecidableEq, Repr

namespace AccessError

def message : AccessError → String
  | missing id => "object ID " ++ toString id.number ++ " " ++ toString id.generation ++ " not found"
  | wrongKind expected found =>
    "object has wrong type; expected type " ++ expected ++ " but found type " ++ found
  | tooManyReferences => "dereferencing object reached limit, may indicate a reference cycle"
  | noEntry key => "missing required dictionary key \"" ++ key ++ "\""

end AccessError

namespace Document

variable {α : Type}

def empty : Document α := ⟨[], [], 0, false⟩

/-- The object stored under a number, references not followed. -/
def stored? (d : Document α) (id : ObjectId) : Option (Object α) :=
  (d.objects.find? fun e => e.1 == id).map Prod.snd

/-- How many references in a row are followed. -/
def maxReferences : Nat := 128

/-- The object that is reached from a number over references, with the number it is stored under. -/
def locateFrom (d : Document α) : Nat → ObjectId → Except AccessError (ObjectId × Object α)
  | hops, id =>
    match d.stored? id with
    | some (.ref next) =>
      match hops with
      | 0 => .error (if (d.stored? next).isSome then .tooManyReferences else .missing next)
      | hops + 1 => locateFrom d hops next
    | some v => .ok (id, v)
    | none => .error (.missing id)

def locate (d : Document α) (id : ObjectId) : Except AccessError (ObjectId × Object α) :=
  d.locateFrom maxReferences id

/-- The dictionary that a number leads to, with the number it is stored under. -/
def locateDict (d : Document α) (id : ObjectId) : Except AccessError (ObjectId × Dict α) :=
  match d.locate id with
  | .ok (id, .dict entries) => .ok (id, entries)
  | .ok (_, v) => .error (.wrongKind "Dictionary" v.kindName)
  | .error e => .error e

def get? (d : Document α) (id : ObjectId) : Option (Object α) :=
  (d.locate id).toOption.map Prod.snd

def getDict? (d : Document α) (id : ObjectId) : Option (Dict α) :=
  (d.get? id).bind Object.dict?

/-- The entries and data of the stream that a number leads to. -/
def getStream? (d : Document α) (id : ObjectId) : Option (Dict α × Bytes) :=
  (d.get? id).bind Object.stream?

/-- The value behind a reference, or the value itself. A reference that leads nowhere stands. -/
def deref (d : Document α) (v : Object α) : Object α :=
  match v with
  | .ref id => (d.get? id).getD v
  | _ => v

/-- Puts an object under a number, in place of what is there. -/
def insertSorted (id : ObjectId) (v : Object α) :
    List (ObjectId × Object α) → List (ObjectId × Object α)
  | [] => [(id, v)]
  | e :: rest =>
    if id = e.1 then (id, v) :: rest
    else if id.before e.1 then (id, v) :: e :: rest
    else e :: insertSorted id v rest

def put (d : Document α) (id : ObjectId) (v : Object α) : Document α :=
  { d with objects := insertSorted id v d.objects }

/-- Adds an object under the next free number. -/
def add (d : Document α) (v : Object α) : Document α × ObjectId :=
  let id : ObjectId := ⟨d.maxNumber + 1, 0⟩
  ({ d with objects := insertSorted id v d.objects, maxNumber := d.maxNumber + 1 }, id)

/-- Changes the dictionary that a number leads to. -/
def modifyDict (d : Document α) (id : ObjectId) (f : Dict α → Dict α) :
    Except AccessError (Document α) :=
  match d.locateDict id with
  | .ok (id, entries) => .ok (d.put id (.dict (f entries)))
  | .error e => .error e

end Document

/-- A stream object with its length among its entries. -/
def Object.streamOf {α : Type} (entries : Dict α) (data : Bytes) : Object α :=
  .stream (entries.set "Length" (.int data.length)) data

end Marginalia
