import Marginalia.Object.Basic

/-!
Content programs: operators with the operands written in front of them.
-/

namespace Marginalia

/-- A value in a content program. Strings have one form here, however they were written, and
dictionaries keep their entries in order, repeated keys included. -/
inductive Operand (α : Type) where
  | null
  | bool (b : Bool)
  | int (n : Int)
  | real (x : α)
  | name (bytes : Bytes)
  | string (bytes : Bytes)
  | array (items : List (Operand α))
  | dict (entries : List (Bytes × Operand α))
  | ref (id : ObjectId)
deriving Inhabited

namespace Operand

variable {α : Type} [Scalar α]

/-- The number that an integer or a real denotes. -/
def number? : Operand α → Option α
  | int n => some (n : α)
  | real x => some x
  | _ => none

end Operand

structure Operation (α : Type) where
  operator : String
  operands : List (Operand α)
deriving Inhabited

namespace Operation

variable {α : Type}

/-- Whether the operator shows text. -/
def showsText (op : Operation α) : Bool :=
  op.operator == "Tj" || op.operator == "TJ" || op.operator == "'" || op.operator == "\""

end Operation

mutual

/-- The operand that an object stands for. A stream stands for its dictionary. -/
def Operand.ofObject {α : Type} : Object α → Operand α
  | .null => .null
  | .bool b => .bool b
  | .int n => .int n
  | .real x => .real x
  | .name n => .name n
  | .string s _ => .string s
  | .array items => .array (Operand.ofObjects items)
  | .dict entries => .dict (Operand.ofEntries entries)
  | .stream entries _ => .dict (Operand.ofEntries entries)
  | .ref id => .ref id

def Operand.ofObjects {α : Type} : List (Object α) → List (Operand α)
  | [] => []
  | v :: vs => Operand.ofObject v :: Operand.ofObjects vs

def Operand.ofEntries {α : Type} : List (Bytes × Object α) → List (Bytes × Operand α)
  | [] => []
  | (k, v) :: es => (k, Operand.ofObject v) :: Operand.ofEntries es

end

/-- How many operations of a program show text. -/
def countTextOperations {α : Type} (ops : List (Operation α)) : Nat :=
  ops.countP Operation.showsText

end Marginalia
