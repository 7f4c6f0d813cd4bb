import Marginalia.Number.Scalar
import Marginalia.Text.Encoding

/-!
The objects a document is made of, and dictionaries, whose keys are distinct and keep the order in
which they were first set.
-/

namespace Marginalia

/-- An indirect object's number and generation. -/
structure ObjectId where
  number : Nat
  generation : Nat
deriving DecidableEq, Repr, Inhabited

namespace ObjectId

/-- By number, then by generation. -/
def before (a b : ObjectId) : Bool :=
  a.number < b.number || (a.number == b.number && a.generation < b.generation)

end ObjectId

/-- A document object. `hex` says that a string is written in hexadecimal. -/
inductive Object (α : Type) where
  | null
  | bool (b : Bool)
  | int (n : Int)
  | real (x : α)
  | name (bytes : Bytes)
  | string (bytes : Bytes) (hex : Bool)
  | array (items : List (Object α))
  | dict (entries : List (Bytes × Object α))
  | stream (entries : List (Bytes × Object α)) (data : Bytes)
  | ref (id : ObjectId)
deriving Inhabited

abbrev Dict (α : Type) := List (Bytes × Object α)

/-- The range of the integers that operands and objects hold. -/
def inWordRange (n : Int) : Bool :=
  -9223372036854775808 ≤ n && n ≤ 9223372036854775807

namespace Dict

variable {α : Type}

def find? (d : Dict α) (key : Bytes) : Option (Object α) :=
  (List.find? (fun e => e.1 == key) d).map Prod.snd

/-- The value of a key given by its ASCII name. -/
def get? (d : Dict α) (key : String) : Option (Object α) :=
  d.find? (Syntax.ascii key)

def has (d : Dict α) (key : String) : Bool :=
  (d.get? key).isSome

/-- Replaces the value of a key in its place, or adds the key at the end. -/
def setBytes (d : Dict α) (key : Bytes) (v : Object α) : Dict α :=
  if d.any (fun e => e.1 == key) then d.map fun e => if e.1 == key then (e.1, v) else e
  else d ++ [(key, v)]

def set (d : Dict α) (key : String) (v : Object α) : Dict α :=
  d.setBytes (Syntax.ascii key) v

def erase (d : Dict α) (key : String) : Dict α :=
  d.filter fun e => !(e.1 == Syntax.ascii key)

def name? (d : Dict α) (key : String) : Option Bytes :=
  (d.get? key).bind fun v => match v with
    | .name n => some n
    | _ => none

/-- The type that a dictionary gives, or the one that a key of its own betrays. -/
def typeName? (d : Dict α) : Option Bytes :=
  match d.name? "Type" with
  | some n => some n
  | none => if d.has "Linearized" then some (Syntax.ascii "Linearized") else none

/-- Whether a name is the value of a key. -/
def hasName (d : Dict α) (key name : String) : Bool :=
  d.name? key == some (Syntax.ascii name)

/-- Entries with ASCII keys, the later of two with one key winning in the place of the first. -/
def ofList (entries : List (String × Object α)) : Dict α :=
  entries.foldl (fun d e => d.set e.1 e.2) []

end Dict

namespace Object

variable {α : Type}

/-- The word for what an object is. -/
def kindName : Object α → String
  | null => "Null"
  | bool _ => "Boolean"
  | int _ => "Integer"
  | real _ => "Real"
  | name _ => "Name"
  | string .. => "String"
  | array _ => "Array"
  | dict _ => "Dictionary"
  | stream .. => "Stream"
  | ref _ => "Reference"

def nameOf (s : String) : Object α := .name (Syntax.ascii s)

/-- A dictionary object with ASCII keys. -/
def ofEntries (entries : List (String × Object α)) : Object α := .dict (Dict.ofList entries)

def array? : Object α → Option (List (Object α))
  | array items => some items
  | _ => none

def dict? : Object α → Option (Dict α)
  | dict entries => some entries
  | _ => none

def stream? : Object α → Option (Dict α × Bytes)
  | stream entries data => some (entries, data)
  | _ => none

def name? : Object α → Option Bytes
  | name bytes => some bytes
  | _ => none

def ref? : Object α → Option ObjectId
  | ref id => some id
  | _ => none

def int? : Object α → Option Int
  | int n => some n
  | _ => none

/-- The number that an integer or a real denotes. -/
def number? [Scalar α] : Object α → Option α
  | int n => some (n : α)
  | real x => some x
  | _ => none

/-- The entries of a dictionary or of a stream. -/
def entries? : Object α → Option (Dict α)
  | dict entries => some entries
  | stream entries _ => some entries
  | _ => none

end Object

end Marginalia
