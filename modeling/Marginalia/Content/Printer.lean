import Marginalia.Content.Operand
import Marginalia.Object.Printer

/-!
Writing content programs. What is written has objects for operands, since a program that is written
chooses the form of its strings.
-/

namespace Marginalia

/-- An operation to be written. -/
structure Instruction (α : Type) where
  operator : String
  operands : List (Object α)

namespace Instruction

variable {α : Type} [Scalar α]

/-- The operation that is read back where the instruction was written. -/
def operation (i : Instruction α) : Operation α :=
  ⟨i.operator, Operand.ofObjects i.operands⟩

/-- The operands with a blank behind each, then the operator. -/
def print (i : Instruction α) : Bytes :=
  i.operands.flatMap (fun v => v.print ++ [0x20]) ++ Syntax.ascii i.operator

end Instruction

/-- A program with an operation on each line. -/
def printProgram {α : Type} [Scalar α] (program : List (Instruction α)) : Bytes :=
  [0x0A].intercalate (program.map Instruction.print)

end Marginalia
