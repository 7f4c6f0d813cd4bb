import Marginalia.Proofs.Content.Program
import Marginalia.Proofs.Content.Strict

/-!
Written programs stand in the plain layout, whatever their operators are, and so are read to their end.
-/

namespace Marginalia

open Syntax ObjectReader Spelling

variable {α : Type} [Scalar α]

theorem text_int {parentheses : Nat} {negative : Bool} {ds : List Char} (hd : ∀ c ∈ ds, c.isDigit = true)
    (hne : ds ≠ []) {n : Int}
    (hn : n = if negative then -(Decimal.natOfDigits ds : Int) else Decimal.natOfDigits ds)
    (hw : inWordRange n = true) :
    Text parentheses (.value (.int n)) (asciiChars (signChars negative ++ ds)) :=
  .int (signText_signChars negative) hd hne hn hw

theorem text_print_int {parentheses : Nat} {n : Int} (hw : inWordRange n = true) :
    Text parentheses (.value (.int n)) (ObjectPrinter.int n) := by
  have hd : ∀ c ∈ Decimal.digitsOf n.natAbs, c.isDigit = true := Decimal.isDigit_digitsOf
  rw [ObjectPrinter.int, ascii_eq, toList_int]
  refine text_int hd Nat.toDigits_ne_nil ?_ hw
  rw [Decimal.natOfDigits_eq hd, Decimal.digitsOf, Nat.ofDigitChars_ten_toDigits]
  simp only [decide_eq_true_eq]
  split <;> omega

/-- A numeral stands for a real if it has decimal places, and for an integer otherwise. -/
theorem text_numeral {parentheses : Nat} {d : Decimal} (hw : 0 ≤ d.exponent → inWordRange d.whole = true) :
    Text parentheses (.value (if d.exponent < 0 then .real d else .int d.whole)) (ascii d.positional) := by
  by_cases he : d.exponent < 0
  · obtain ⟨whole, fraction, htext, hwhole, hfraction, hne, hdigits, hexp⟩ := Decimal.positional_point he
    have hd : d = ⟨d.negative, Decimal.natOfDigits (whole ++ fraction), -(fraction.length : Int)⟩ := by
      rw [hdigits, hexp]
    rw [if_pos he, ascii_eq, htext, hd]
    exact .real (signText_signChars d.negative) hwhole hfraction (by simp [hne])
  · obtain ⟨ds, htext, hd, hne, hval⟩ := Decimal.positional_whole (by omega : 0 ≤ d.exponent)
    have hwhole : d.whole = if d.negative then -(Decimal.natOfDigits ds : Int) else Decimal.natOfDigits ds := by
      rw [hval]
      rfl
    rw [if_neg he, ascii_eq, htext]
    exact text_int hd hne hwhole (hw (by omega))

theorem nameText_self {n : Bytes} (h : ∀ c ∈ n, ObjectPrinter.isNameByte c = true) : NameText n n := by
  induction n with
  | nil => exact .nil
  | cons c n ih =>
    have hc := h c (by simp)
    simp only [ObjectPrinter.isNameByte, Bool.and_eq_true, bne_iff_ne, ne_eq] at hc
    exact .byte hc.1.2 hc.2 (ih fun c' hc' => h c' (by simp [hc']))

theorem hexText_nibbles (s : Bytes) : HexText (nibbles s) (s.flatMap hexPair) := by
  induction s with
  | nil => exact .nil
  | cons c s ih =>
    obtain ⟨hhigh, hlow, -⟩ := div_mod_nibble c
    have hsplit : nibbles (c :: s) = c / 16 :: c % 16 :: nibbles s := rfl
    rw [hsplit, List.flatMap_cons]
    exact .digit ((hexValue?_hexDigit _).trans (congrArg some hhigh))
      (.digit ((hexValue?_hexDigit _).trans (congrArg some hlow)) ih)

/-- The written form of an operand is a text of what is read there. -/
theorem text_print {v : Object α} (hv : v.IsPrintable) :
    ∃ o : Operand Decimal, Text maxParentheses (.value o) v.print ∧ narrow o = Operand.ofObject v.readBack := by
  cases v with
  | int n => exact ⟨.int n, by rw [Object.print]; exact text_print_int hv, rfl⟩
  | real x =>
    obtain ⟨d, hd, hw⟩ := hv
    refine ⟨_, by rw [Object.print, ObjectPrinter.real, hd]; exact text_numeral hw, ?_⟩
    simp only [Object.readBack, hd]
    split <;> rfl
  | name n => exact ⟨.name n, by rw [Object.print, print_name hv]; exact .name (nameText_self hv), rfl⟩
  | string s hex =>
    obtain rfl : hex = true := hv
    have hprint : (Object.string (α := α) s true).print = 0x3C :: (s.flatMap hexPair ++ [0x3E]) := by
      simp [Object.print, ObjectPrinter.hexString]
    refine ⟨.string (pairNibbles (nibbles s)), by rw [hprint]; exact .hex (hexText_nibbles s), ?_⟩
    rw [pairNibbles_nibbles]
    rfl
  | null => exact hv.elim
  | bool b => exact hv.elim
  | array vs => exact hv.elim
  | dict es => exact hv.elim
  | stream es data => exact hv.elim
  | ref id => exact hv.elim

namespace Instruction

/-- That an instruction has operands that stand for themselves, and an operator of the strict reader. -/
structure IsPlain (i : Instruction α) : Prop where
  operands : ∀ v ∈ i.operands, v.IsPrintable
  operator : IsPlainOperator i.operator

/-- Instructions are plain if all their operators and all their operands are. -/
theorem plain_of_words {p : List (Instruction α)}
    (hwords : ∀ word ∈ p.map Instruction.operator, IsPlainOperator word)
    (hvs : ∀ i ∈ p, ∀ v ∈ i.operands, v.IsPrintable) : ∀ i ∈ p, i.IsPlain := by
  intro i hi
  exact ⟨hvs i hi, hwords i.operator (List.mem_map_of_mem hi)⟩

/-- Operands with a blank behind each, and an operator behind them, are a text of what is read there. -/
theorem text_operands {word : String} (hword : IsPlainOperator word) {vs : List (Object α)}
    (hvs : ∀ v ∈ vs, v.IsPrintable) : ∃ os : List (Operand Decimal),
    OperationText .plain word os (vs.flatMap (fun v => v.print ++ [0x20]) ++ ascii word) ∧
      os.map narrow = vs.map fun v => Operand.ofObject v.readBack := by
  induction vs with
  | nil => exact ⟨[], .operator hword, rfl⟩
  | cons v vs ih =>
    obtain ⟨os, hrest, hread⟩ := ih fun v' hv' => hvs v' (by simp [hv'])
    obtain ⟨o, hv, ho⟩ := text_print (hvs v (by simp))
    refine ⟨o :: os, ?_, by rw [List.map_cons, List.map_cons, ho, hread]⟩
    have hgap : Layout.plain.gap [0x20] := show ∀ c ∈ [0x20], Grammar.isSpace c = true by decide
    rw [List.flatMap_cons, List.append_assoc, List.append_assoc]
    exact .operand hv hgap (headNot_cons rfl _) hrest

/-- A written instruction is a text of the operation that is read there. -/
theorem IsPlain.text {i : Instruction α} (hi : i.IsPlain) : ∃ op : Operation Decimal,
    OperationText .plain op.operator op.operands i.print ∧
      op.mapReals Scalar.ofDecimalNarrow = i.readBack := by
  obtain ⟨os, htext, hread⟩ := text_operands hi.operator hi.operands
  exact ⟨⟨i.operator, os⟩, htext, congrArg (Operation.mk i.operator) hread⟩

end Instruction

/-- A written program is a text of the operations that are read there. -/
theorem programText_print {p : List (Instruction α)} (hp : ∀ i ∈ p, i.IsPlain) {lead : Bytes}
    (hlead : Layout.plain.lead lead) : ∃ ops : List (Operation Decimal),
    ProgramText .plain ops (lead ++ printProgram p) ∧
      ops.map (Operation.mapReals Scalar.ofDecimalNarrow) = p.map Instruction.readBack := by
  induction p generalizing lead with
  | nil => exact ⟨[], .done ((List.append_nil lead).symm ▸ hlead), rfl⟩
  | cons i p ih =>
    have hline : Layout.plain.lead [0x0A] := ⟨[0x0A], [], rfl, by decide, .nil⟩
    obtain ⟨op, hop, hread⟩ := (hp i (by simp)).text
    obtain ⟨ops, hrest, hall⟩ := ih (fun j hj => hp j (by simp [hj])) hline
    obtain ⟨tail, hprint, -, ⟨rfl, rfl⟩ | ⟨rfl, -⟩⟩ := Grammar.printProgram_cons i p
    · refine ⟨[op], ?_, by simp [hread]⟩
      rw [hprint]
      exact .operation hlead hop headNot_nil (.done ⟨[], [], rfl, by simp, .nil⟩)
    · refine ⟨op :: ops, ?_, by rw [List.map_cons, List.map_cons, hread, hall]⟩
      rw [hprint]
      exact .operation hlead hop (headNot_cons rfl _) hrest

/-- A written program is read as the operations that it was written from. -/
theorem decodeOperations_printProgram {p : List (Instruction α)} (hp : ∀ i ∈ p, i.IsPlain) :
    decodeOperations (printProgram p) = p.map Instruction.readBack := by
  have hnothing : Layout.plain.lead [] := ⟨[], [], rfl, by simp, .nil⟩
  obtain ⟨ops, htext, hread⟩ := programText_print hp hnothing
  have hstrict : Grammar.operations? (α := α) (printProgram p) =
      some ([].reverse ++ ops.map (Operation.mapReals Scalar.ofDecimalNarrow)) :=
    operationsFrom_text htext (Nat.lt_succ_self _) (Nat.lt_succ_self _) []
  rw [decodeOperations, hstrict, hread]
  rfl

end Marginalia
