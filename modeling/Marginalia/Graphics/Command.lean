import Marginalia.Geometry.Matrix

/-!
Operations with their operands checked. Everything an operator needs is taken out of its operands
before any of it is carried out, so an operation with unusable operands has no command at all.
-/

namespace Marginalia

/-- What a content program can ask for. -/
inductive Command (α : Type) where
  | save
  | restore
  | concat (m : Matrix α)
  | beginText
  | endText
  | selectFont (key : Bytes) (size : α)
  | setTextMatrix (m : Matrix α)
  | moveLine (tx ty : α)
  | moveLineWithLeading (tx ty : α)
  | setLeading (leading : α)
  | advanceLine
  | setScaling (percent : α)
  | show_ (bytes : Bytes)
  | showOnNextLine (bytes : Bytes)
  | showPieces (pieces : List Bytes)
  | invoke (name : Bytes)

namespace Command

variable {α : Type} [Scalar α]

/-- The strings among the items of an array. -/
def strings (items : List (Operand α)) : List Bytes :=
  items.filterMap fun
    | .string bytes => some bytes
    | _ => none

def twoNumbers? : List (Operand α) → Option (α × α)
  | a :: b :: _ => do return (← a.number?, ← b.number?)
  | _ => none

def oneNumber? (operands : List (Operand α)) : Option α :=
  operands.head?.bind Operand.number?

def stringAt? (operands : List (Operand α)) (i : Nat) : Option Bytes :=
  match operands[i]? with
  | some (.string bytes) => some bytes
  | _ => none

/-- The command of an operation. There is none for an operator outside the vocabulary or for
operands that are missing or of the wrong kind. -/
def ofOperation? (op : Operation α) : Option (Command α) :=
  let vs := op.operands
  match op.operator with
  | "q" => some save
  | "Q" => some restore
  | "cm" => (Matrix.ofOperands? vs).map concat
  | "BT" => some beginText
  | "ET" => some endText
  | "Tf" =>
    match vs with
    | .name key :: size :: _ => size.number?.map (selectFont key)
    | _ => none
  | "Tm" => (Matrix.ofOperands? vs).map setTextMatrix
  | "Td" => (twoNumbers? vs).map fun (tx, ty) => moveLine tx ty
  | "TD" => (twoNumbers? vs).map fun (tx, ty) => moveLineWithLeading tx ty
  | "TL" => (oneNumber? vs).map setLeading
  | "T*" => some advanceLine
  | "Tz" => (oneNumber? vs).map setScaling
  | "Tj" => (stringAt? vs 0).map show_
  | "'" => (stringAt? vs 0).map showOnNextLine
  | "\"" => (stringAt? vs 2).map showOnNextLine
  | "TJ" =>
    match vs with
    | .array items :: _ => some (showPieces (strings items))
    | _ => none
  | "Do" =>
    match vs with
    | .name name :: _ => some (invoke name)
    | _ => none
  | _ => none

end Command

end Marginalia
