import Marginalia.Proofs.Content.Recovering
import Marginalia.Proofs.Number.Plain

/-!
The two readers of content programs agree on programs in the plain layout. Where white space or a comment
stands that the strict reader does not know, it stops without a word, and the rest of the program is lost.
-/

namespace Marginalia

open Syntax ObjectReader Spelling

/-- Every program in the plain layout is read to its end by both readers. They find the same operations, with
the numerals of reals taken in single precision by the one and in double precision by the other. -/
theorem decodeOperations_plain {α : Type} [Scalar α] {ops : List (Operation Decimal)} {w : Bytes}
    (h : ProgramText .plain ops w) :
    decodeOperations (α := α) w = ops.map (Operation.mapReals Scalar.ofDecimalNarrow) ∧
      (lexOperations (α := α) w).operations = ops.map (Operation.mapReals Scalar.ofDecimal) ∧
      (lexOperations (α := α) w).fault = none := by
  have hstrict : Grammar.operations? (α := α) w = some (ops.map (Operation.mapReals Scalar.ofDecimalNarrow)) :=
    operationsFrom_text h (Nat.lt_succ_self _) (Nat.lt_succ_self _) []
  rw [decodeOperations, hstrict, Lexer.lexOperations_text (h.within plain_within)]
  exact ⟨rfl, rfl, rfl⟩

/-- A comment, an array of numbers and of a string with an escape in it, and a dictionary. -/
def shownText : Bytes :=
  ascii "% run" ++ [10] ++ ascii "[1 -2.50 (a(b)" ++ [0x5C] ++ ascii "n)] TJ" ++ [13, 10] ++ ascii "/P <</K true>> DP"

def shownOperations : List (Operation Decimal) :=
  [⟨"TJ", [.array [.int 1, .real ⟨true, 250, -2⟩, .string [0x61, 0x28, 0x62, 0x29, 10]]]⟩,
    ⟨"DP", [.name [0x50], .dict [([0x4B], .bool true)]]⟩]

theorem shownText_plain : ProgramText .plain shownOperations shownText := by
  have hblank : Gap [0x20] := .white rfl .nil
  have hspace : Layout.plain.gap [0x20] :=
    show ∀ c ∈ [0x20], Grammar.isSpace c = true by decide
  have hstop : ∀ {c : UInt8} {bs : Bytes}, isRegular c = false → HeadNot isRegular (c :: bs) :=
    fun h => headNot_cons h _
  have hone : Text maxParentheses (.value (.int 1)) _ :=
    @Text.int _ false [] ['1'] 1 .plain (by decide) (by decide) rfl rfl
  have hreal : Text maxParentheses (.value (.real ⟨true, 250, -2⟩)) _ :=
    @Text.real _ true ['-'] ['2'] ['5', '0'] .minus (by decide) (by decide) (by decide)
  have hstring : LiteralText maxParentheses [0x61, 0x28, 0x62, 0x29, 10] _ :=
    .byte (by decide) (by decide) (by decide) (.nested (.byte (by decide) (by decide) (by decide) .nil)
      (.escape (c := 0x6E) rfl rfl .nil))
  have harray : Text maxParentheses (.value (.array
      [.int 1, .real ⟨true, 250, -2⟩, .string [0x61, 0x28, 0x62, 0x29, 10]])) _ :=
    .array .nil (.item hone hblank (hstop rfl) (.item hreal hblank (hstop rfl)
      (.item (.literal hstring) .nil headNot_nil .noItems)))
  have hkey : NameText [0x4B] _ := .byte rfl (by decide) .nil
  have hdict : Text maxParentheses (.value (.dict [([0x4B], .bool true)])) _ :=
    .dict .nil (.entry hkey hblank (hstop rfl) .trueWord .nil headNot_nil (by decide) .noEntries)
  have hname : Text maxParentheses (.value (.name [0x50])) _ := .name (.byte rfl (by decide) .nil)
  have hcomment : Comments (0x25 :: (ascii " run" ++ ([10] ++ []))) := .line (by decide) (by decide) .nil
  have hfirst : Layout.plain.lead (0x25 :: (ascii " run" ++ ([10] ++ []))) := ⟨[], _, rfl, by simp, hcomment⟩
  have hsecond : Layout.plain.lead [13, 10] := ⟨[13, 10], [], rfl, by decide, .nil⟩
  have hlast : Layout.plain.lead [] := ⟨[], [], rfl, by simp, .nil⟩
  have hshow : OperationText .plain "TJ" _ _ :=
    .operand harray hspace (hstop rfl) (.operator (show IsPlainOperator "TJ" by decide))
  have hmark : OperationText .plain "DP" _ _ :=
    .operand hname hspace (hstop rfl) (.operand hdict hspace (hstop rfl)
      (.operator (show IsPlainOperator "DP" by decide)))
  have htext : ∃ w, ProgramText .plain shownOperations w ∧ w = shownText :=
    ⟨_, .operation hfirst hshow (hstop rfl) (.operation hsecond hmark headNot_nil (.done hlast)), by decide⟩
  obtain ⟨w, hw, rfl⟩ := htext
  exact hw

theorem decodeOperations_shownText : ProgramText .plain shownOperations shownText ∧
    decodeOperations (α := Exact .plain) shownText =
      shownOperations.map (Operation.mapReals Scalar.ofDecimalNarrow) ∧
    (lexOperations (α := Exact .plain) shownText).operations =
      shownOperations.map (Operation.mapReals Scalar.ofDecimal) ∧
    (lexOperations (α := Exact .plain) shownText).fault = none :=
  ⟨shownText_plain, decodeOperations_plain shownText_plain⟩

/-- A NUL between two operators is white space for the recovering reader alone: the strict reader stops in front
of it, and the second operator is lost. -/
theorem decodeOperations_nul :
    ProgramText (.free maxParentheses) [⟨"q", []⟩, ⟨"Q", []⟩] [0x71, 0, 0x51] ∧
      decodeOperations (α := Exact .plain) [0x71, 0, 0x51] = [⟨"q", []⟩] ∧
      lexOperations (α := Exact .plain) [0x71, 0, 0x51] = ⟨[⟨"q", []⟩, ⟨"Q", []⟩], none⟩ := by
  have hoperator : ∀ word, IsPlainOperator word → OperationText (.free maxParentheses) word [] (ascii word) :=
    fun word h => .operator h.isOperator
  have hsave : OperationText (.free maxParentheses) "q" [] [0x71] := hoperator "q" (by decide)
  have hrestore : OperationText (.free maxParentheses) "Q" [] [0x51] := hoperator "Q" (by decide)
  have hlast : ProgramText (.free maxParentheses) [⟨"Q", []⟩] [0, 0x51] :=
    @ProgramText.operation _ ⟨"Q", []⟩ [] [0] [0x51] [] (Gap.white rfl .nil) hrestore headNot_nil
      (.done Gap.nil)
  have htext : ProgramText (.free maxParentheses) [⟨"q", []⟩, ⟨"Q", []⟩] [0x71, 0, 0x51] :=
    @ProgramText.operation _ ⟨"q", []⟩ _ [] [0x71] _ Gap.nil hsave (headNot_cons rfl _) hlast
  exact ⟨htext, rfl, Lexer.lexOperations_text htext⟩

/-- The operators of content programs but for those of inline images and of glyph descriptions. -/
example : ∀ word ∈ ["b", "B", "b*", "B*", "BDC", "BMC", "BT", "BX", "c", "cm", "CS", "cs", "d", "Do", "DP", "EMC",
    "ET", "EX", "f", "F", "f*", "G", "g", "gs", "h", "i", "j", "J", "K", "k", "l", "m", "M", "MP", "n", "q", "Q",
    "re", "RG", "rg", "ri", "s", "S", "SC", "sc", "SCN", "scn", "sh", "T*", "Tc", "Td", "TD", "Tf", "Tj", "TJ",
    "TL", "Tm", "Tr", "Ts", "Tw", "Tz", "v", "w", "W", "W*", "y", "\x27", "\x22"], IsPlainOperator word := by
  decide

end Marginalia
