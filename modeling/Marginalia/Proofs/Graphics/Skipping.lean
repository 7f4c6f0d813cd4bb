import Marginalia.Graphics.Extraction
import Marginalia.Proofs.Graphics.LineStart

/-!
Operations that are skipped. What each operator asks of its operands is a table; an operation that does not have
what its operator asks for, or whose operator is not in the table, leaves everything as it was. A program, and the
programs of all forms that it runs, can therefore be rid of such operations.
-/

namespace Marginalia

variable {α : Type}

/-- What an operator may ask of an operand. -/
inductive OperandKind where
  | number
  | name
  | string
  | array
deriving DecidableEq, Repr

def OperandKind.admits : OperandKind → Operand α → Bool
  | number, .int _ => true
  | number, .real _ => true
  | name, .name _ => true
  | string, .string _ => true
  | array, .array _ => true
  | _, _ => false

namespace Operation

/-- The demand for so many numbers in front. -/
def numbers (count : Nat) : List (Nat × OperandKind) :=
  (List.range count).map fun i => (i, .number)

/-- The operators of the vocabulary, each with the operands that it asks for: their places and kinds. What else
there is among the operands is passed over. -/
def demands? : String → Option (List (Nat × OperandKind))
  | "q" | "Q" | "BT" | "ET" | "T*" => some []
  | "cm" | "Tm" => some (numbers 6)
  | "Tf" => some [(0, .name), (1, .number)]
  | "Td" | "TD" => some (numbers 2)
  | "TL" | "Tz" => some (numbers 1)
  | "Tj" | "'" => some [(0, .string)]
  | "\"" => some [(2, .string)]
  | "TJ" => some [(0, .array)]
  | "Do" => some [(0, .name)]
  | _ => none

def hasOperand (vs : List (Operand α)) (demand : Nat × OperandKind) : Bool :=
  (vs[demand.1]?).any demand.2.admits

/-- Whether the operator is known and all operands that it asks for are there. -/
def isUsable (op : Operation α) : Bool :=
  (demands? op.operator).any fun demands => demands.all (hasOperand op.operands)

end Operation

/-- The same forms and texts, with only the operations that are usable in their programs. -/
def Resolver.usable (r : Resolver α) : Resolver α :=
  { r with operations := fun content => (r.operations content).filter Operation.isUsable }

namespace Command

open Operation

theorem any_const {β : Type} (o : Option β) (c : Bool) : (o.any fun _ => c) = (o.isSome && c) := by
  cases o <;> rfl

theorem isSome_stringAt? (vs : List (Operand α)) (i : Nat) :
    (stringAt? vs i).isSome = hasOperand vs (i, .string) := by
  unfold stringAt? hasOperand
  cases vs[i]? with
  | none => rfl
  | some v => cases v <;> rfl

variable [Scalar α]

theorem isSome_number? (v : Operand α) : v.number?.isSome = OperandKind.number.admits v := by
  cases v <;> rfl

theorem isSome_matrix? : ∀ vs : List (Operand α),
    (Matrix.ofOperands? vs).isSome = (numbers 6).all (hasOperand vs)
  | a :: b :: c :: d :: e :: f :: _ => by
    simp [Matrix.ofOperands?, numbers, hasOperand, List.range_succ, Option.isSome_bind, any_const, isSome_number?]
  | [] | [_] | [_, _] | [_, _, _] | [_, _, _, _] | [_, _, _, _, _] => by
    simp [Matrix.ofOperands?, numbers, hasOperand, List.range_succ]

theorem isSome_twoNumbers? : ∀ vs : List (Operand α),
    (twoNumbers? vs).isSome = (numbers 2).all (hasOperand vs)
  | a :: b :: _ => by
    simp [twoNumbers?, numbers, hasOperand, List.range_succ, Option.isSome_bind, any_const, isSome_number?]
  | [] | [_] => by simp [twoNumbers?, numbers, hasOperand, List.range_succ]

theorem isSome_oneNumber? : ∀ vs : List (Operand α),
    (oneNumber? vs).isSome = (numbers 1).all (hasOperand vs)
  | v :: _ => by simp [oneNumber?, numbers, hasOperand, isSome_number?]
  | [] => by simp [oneNumber?, numbers, hasOperand]

theorem isSome_selectFont (vs : List (Operand α)) :
    (ofOperation? ⟨"Tf", vs⟩).isSome = isUsable ⟨"Tf", vs⟩ := by
  rcases vs with _ | ⟨v, _ | ⟨w, vs⟩⟩
  · rfl
  · cases v <;> rfl
  · cases v <;> simp [ofOperation?, isUsable, demands?, hasOperand, OperandKind.admits, isSome_number?]

theorem isSome_showPieces (vs : List (Operand α)) :
    (ofOperation? ⟨"TJ", vs⟩).isSome = isUsable ⟨"TJ", vs⟩ := by
  rcases vs with _ | ⟨v, vs⟩
  · rfl
  · cases v <;> rfl

theorem isSome_invoke (vs : List (Operand α)) :
    (ofOperation? ⟨"Do", vs⟩).isSome = isUsable ⟨"Do", vs⟩ := by
  rcases vs with _ | ⟨v, vs⟩
  · rfl
  · cases v <;> rfl

/-- An operation has a command if, and only if, the table says that it is usable. -/
theorem isSome_ofOperation? (op : Operation α) : (ofOperation? op).isSome = op.isUsable := by
  obtain ⟨operator, vs⟩ := op
  by_cases hfont : operator = "Tf"
  · exact hfont ▸ isSome_selectFont vs
  by_cases hpieces : operator = "TJ"
  · exact hpieces ▸ isSome_showPieces vs
  by_cases hform : operator = "Do"
  · exact hform ▸ isSome_invoke vs
  unfold ofOperation? isUsable
  simp only
  split <;> simp_all [demands?, isSome_matrix?, isSome_twoNumbers?, isSome_oneNumber?, isSome_stringAt?]

end Command

namespace Machine

variable [Scalar α] {r : Resolver α} {frame : PageFrame α} {invoke : Scope → Bytes → Machine α → Machine α}

theorem step_unusable {op : Operation α} (h : op.isUsable = false) (scope : Scope) (s : Machine α) :
    s.step r frame invoke scope op = s := by
  have hnone : Command.ofOperation? op = none := by
    rw [← Option.isNone_iff_eq_none, ← Option.isSome_eq_false_iff, Command.isSome_ofOperation?, h]
  rw [Machine.step, hnone]

/-- A program runs as it does without its unusable operations, whatever runs its forms. -/
theorem foldl_usable (scope : Scope) (ops : List (Operation α)) (s : Machine α) :
    (ops.filter Operation.isUsable).foldl (Machine.step r frame invoke scope) s =
      ops.foldl (Machine.step r frame invoke scope) s := by
  induction ops generalizing s with
  | nil => rfl
  | cons op ops ih =>
    cases hop : op.isUsable with
    | true => rw [List.filter_cons_of_pos hop, List.foldl_cons, List.foldl_cons, ih]
    | false => rw [List.filter_cons_of_neg (by simp [hop]), List.foldl_cons, step_unusable hop, ih]

variable (r frame)

/-- Forms run as they do without unusable operations in their programs, however deep they are nested. -/
theorem invoke_usable (nesting : Nat) : Machine.invoke r.usable frame nesting = Machine.invoke r frame nesting := by
  induction nesting with
  | zero => rfl
  | succ nesting ih =>
    have hprogram : ∀ content scope s, (r.usable.operations content).foldl
        (Machine.step r.usable frame (Machine.invoke r frame nesting) scope) s =
          (r.operations content).foldl (Machine.step r frame (Machine.invoke r frame nesting) scope) s :=
      fun content scope s => foldl_usable scope (r.operations content) s
    funext scope name s
    unfold Machine.invoke
    rw [ih]
    simp only [hprogram]
    rfl

theorem run_usable (nesting : Nat) : run r.usable frame nesting = run r frame nesting := by
  funext scope s op
  rw [run, invoke_usable]
  rfl

variable (nesting : Nat) (scope : Scope)

theorem runAll_filter (ops : List (Operation α)) (s : Machine α) :
    runAll r frame nesting scope (ops.filter Operation.isUsable) s = runAll r frame nesting scope ops s :=
  foldl_usable scope ops s

theorem runAll_filter_forms (ops : List (Operation α)) (s : Machine α) :
    runAll r.usable frame nesting scope (ops.filter Operation.isUsable) s = runAll r frame nesting scope ops s := by
  rw [runAll, run_usable]
  exact runAll_filter r frame nesting scope ops s

/-- An operation is unusable when its operator is not in the vocabulary or an operand that the operator asks for is
missing or of another kind. It then leaves the machine as it was, and a program without all such operations, in
itself or in its forms as well, draws the same runs and leaves the same state. -/
theorem runAll_usable :
    (∀ op : Operation α, (Command.ofOperation? op).isSome = op.isUsable) ∧
      (∀ (op : Operation α) (s : Machine α), op.isUsable = false → s.run r frame nesting scope op = s) ∧
      ∀ (ops : List (Operation α)) (s : Machine α),
        runAll r frame nesting scope (ops.filter Operation.isUsable) s = runAll r frame nesting scope ops s ∧
          runAll r.usable frame nesting scope (ops.filter Operation.isUsable) s =
            runAll r frame nesting scope ops s := by
  refine ⟨Command.isSome_ofOperation?, fun op s hop => step_unusable hop scope s, fun ops s => ⟨?_, ?_⟩⟩
  · exact runAll_filter r frame nesting scope ops s
  · exact runAll_filter_forms r frame nesting scope ops s

/-- A `TD` whose second operand is a name sets no leading and moves no line. -/
theorem runAll_usable_halfway :
    let op : Operation (Exact .plain) := ⟨"TD", [.int 5, .name [0x46]]⟩
    let s := runAll bytewise letterFrame 32 .nothing (tenPoints [0x61]) .initial
    op.isUsable = false ∧ s.run bytewise letterFrame 32 .nothing op = s :=
  ⟨rfl, (runAll_usable bytewise letterFrame 32 .nothing).2.1 _ _ rfl⟩

end Machine

/-- The text of a page is what the usable operations of its program and forms draw. -/
theorem PageProgram.runs_usable [Scalar α] (p : PageProgram α) (r : Resolver α) (nesting : Nat) :
    p.runs r.usable nesting = p.runs r nesting := by
  unfold PageProgram.runs
  cases p.frame with
  | error e => rfl
  | ok frame =>
    cases p.content with
    | error e => rfl
    | ok content =>
      have hprogram := Machine.runAll_filter_forms r frame nesting p.scope (r.operations content) .initial
      exact congrArg (fun s => Except.ok (Machine.runs s)) hprogram

end Marginalia
