import Marginalia.Content.Lexer
import Marginalia.Proofs.Object.Reading
import Mathlib.Data.List.Infix

/-!
Content programs that are cut off: what the recovering reader has taken as an operation stays one, whatever follows,
and only the operation whose operator is cut through can be another.
-/

namespace Marginalia

open Syntax ObjectReader

namespace Lexer

variable {α : Type}

/-- That a state has the operations of another one, or one more. -/
def OneMore (s s' : Lexer α) : Prop :=
  s'.operations = s.operations ∨ ∃ op, s'.operations = op :: s.operations

@[simp]
theorem operations_fail (s : Lexer α) (offset : Nat) (kind : FaultKind) :
    (s.fail offset kind).operations = s.operations := rfl

@[simp]
theorem operations_deliver (s : Lexer α) (start : Nat) (v : Operand α) :
    (s.deliver start v).operations = s.operations := by
  simp only [deliver]
  split
  · split <;> rfl
  · rfl
  · rfl
  · split <;> rfl

@[simp]
theorem operations_closeArray (s : Lexer α) : s.closeArray.operations = s.operations := by
  unfold closeArray
  split <;> simp

@[simp]
theorem operations_closeDict (s : Lexer α) : s.closeDict.operations = s.operations := by
  unfold closeDict
  split <;> simp

@[simp]
theorem operations_greaterSign (s : Lexer α) : s.greaterSign.operations = s.operations := by
  unfold greaterSign
  split <;> rfl

@[simp]
theorem operations_startToken (s : Lexer α) (c : UInt8) : (s.startToken c).operations = s.operations := by
  simp only [startToken, apply_ite Lexer.operations, operations_closeArray, operations_greaterSign, operations_fail,
    ite_self]

@[simp]
theorem operations_hexByte (s : Lexer α) (start : Nat) (nibbles : List UInt8) (c : UInt8) :
    (s.hexByte start nibbles c).operations = s.operations := by
  unfold hexByte
  split
  · exact operations_deliver _ _ _
  · split <;> rfl

@[simp]
theorem operations_scanImage (s : Lexer α) (scan : ImageScan) (c : UInt8) :
    (s.scanImage scan c).operations = s.operations := by
  cases scan <;> simp only [scanImage, apply_ite Lexer.operations, ite_self]

@[simp]
theorem operations_closeNesting (s : Lexer α) : s.closeNesting.operations = s.operations := by
  unfold closeNesting
  split <;> rfl

theorem operator_oneMore (s : Lexer α) (start : Nat) (word : String) : s.OneMore (s.operator start word) := by
  unfold operator
  split
  · exact .inl rfl
  · split
    · exact .inl rfl
    · exact .inr ⟨_, rfl⟩

variable [Scalar α]

theorem word_oneMore (s : Lexer α) (start : Nat) (bytes : Bytes) : s.OneMore (s.word start bytes) := by
  unfold word
  split
  · split_ifs
    · exact .inl (operations_deliver _ _ _)
    · exact .inl (operations_deliver _ _ _)
    · exact .inl (operations_deliver _ _ _)
    · exact .inl (operations_deliver _ _ _)
    · exact s.operator_oneMore _ _
  · exact .inl rfl

/-- The state once a word or a name that is being read has come to its end. -/
def ended (s : Lexer α) : Lexer α :=
  match s.mode with
  | .word start bytes => s.word start bytes.reverse
  | .name start bytes => s.deliver start (.name (unescapeName bytes.reverse))
  | _ => s

theorem ended_oneMore (s : Lexer α) : s.OneMore s.ended := by
  unfold ended
  split
  · exact s.word_oneMore _ _
  · exact .inl (operations_deliver _ _ _)
  · exact .inl rfl

/-- At the end of the input the operations are those of the words that are there. -/
theorem operations_finish (s : Lexer α) : s.finish.operations = s.ended.operations := by
  unfold finish ended
  cases s.mode with
  | word start bytes =>
    simp only
    split <;> simp
  | name start bytes =>
    simp only
    split <;> simp
  | _ => simp

/-- A byte that no word goes on with ends the word, and adds no other operation. -/
theorem operations_react {c : UInt8} (s : Lexer α) (hc : isRegular c = false) :
    (s.react c).operations = s.ended.operations := by
  unfold react ended
  cases s.mode with
  | word start bytes =>
    simp only [hc, Bool.false_eq_true, if_false]
    split <;> simp [skipSeparator]
  | name start bytes =>
    simp only [hc, Bool.false_eq_true, if_false]
    split <;> simp
  | comment => simp only [apply_ite Lexer.operations, ite_self]
  | literal start string =>
    simp only
    split <;> simp
  | less start => simp only [apply_ite Lexer.operations, operations_hexByte, ite_self]
  | greater start => simp only [apply_ite Lexer.operations, operations_closeDict, operations_fail, ite_self]
  | _ => simp [skipSeparator]

/-- Reading a byte adds one operation at most. -/
theorem step_oneMore (s : Lexer α) (c : UInt8) : s.OneMore (s.step c) := by
  change s.OneMore (s.react c)
  cases hc : isRegular c with
  | false =>
    have hended := s.ended_oneMore
    rwa [OneMore, ← s.operations_react hc] at hended
  | true =>
    left
    unfold react
    cases s.mode with
    | comment => simp only [apply_ite Lexer.operations, ite_self]
    | literal start string =>
      simp only
      split <;> simp
    | less start => simp only [apply_ite Lexer.operations, operations_hexByte, ite_self]
    | greater start => simp only [apply_ite Lexer.operations, operations_closeDict, operations_fail, ite_self]
    | _ => simp [skipSeparator, hc]

/-- Whatever is read, the operations that are there stay. -/
theorem operations_read (s : Lexer α) (bs : Bytes) : s.operations <:+ (s.read bs).operations := by
  induction bs generalizing s with
  | nil => exact List.suffix_rfl
  | cons c bs ih =>
    refine List.IsSuffix.trans ?_ (ih (s.step c))
    rcases s.step_oneMore c with h | ⟨op, h⟩
    · rw [h]
    · rw [h]
      exact List.suffix_cons op s.operations

theorem operations_read_finish (s : Lexer α) (bs : Bytes) : s.operations <:+ (s.read bs).finish.operations := by
  refine (s.operations_read bs).trans ?_
  rw [operations_finish]
  rcases (s.read bs).ended_oneMore with h | ⟨op, h⟩
  · rw [h]
  · rw [h]
    exact List.suffix_cons op _

theorem read_append (s : Lexer α) (p t : Bytes) : s.read (p ++ t) = (s.read p).read t := List.foldl_append

/-- Where a word may end the reader can stop: it has the operations that it goes on with. -/
theorem finish_operations_read (s : Lexer α) {t : Bytes} (ht : HeadNot isRegular t) :
    s.finish.operations <:+ (s.read t).finish.operations := by
  cases t with
  | nil => exact List.suffix_rfl
  | cons c t =>
    have hstep : (s.step c).operations = s.finish.operations := by
      rw [operations_finish]
      exact s.operations_react (ht c rfl)
    rw [← hstep]
    exact (s.step c).operations_read_finish t

end Lexer

open Lexer

/-- A program that is cut off has the operations of the whole program but for the last one, and that one too unless
the cut goes through a word. -/
theorem lexOperations_cut {α : Type} [Scalar α] (p t : Bytes) :
    (lexOperations (α := α) p).operations.dropLast <+: (lexOperations (p ++ t)).operations ∧
      (HeadNot isRegular t → (lexOperations (α := α) p).operations <+: (lexOperations (p ++ t)).operations) := by
  have hpart : (lexOperations (α := α) p).operations = (initial.read p).finish.operations.reverse := rfl
  have hwhole : (lexOperations (α := α) (p ++ t)).operations = ((initial.read p).read t).finish.operations.reverse := by
    rw [← read_append]
    rfl
  rw [hpart, hwhole]
  generalize (initial (α := α)).read p = s
  constructor
  · have hkept := s.operations_read_finish t
    rw [operations_finish]
    rcases s.ended_oneMore with h | ⟨op, h⟩
    · rw [h]
      exact (List.dropLast_prefix _).trans (List.reverse_prefix.mpr hkept)
    · rw [h, List.reverse_cons, List.dropLast_concat]
      exact List.reverse_prefix.mpr hkept
  · intro ht
    exact List.reverse_prefix.mpr (s.finish_operations_read ht)

example : (lexOperations (α := Float) (ascii "BT ET")).operations = [⟨"BT", []⟩, ⟨"ET", []⟩] ∧
    (lexOperations (α := Float) (ascii "BT E")).operations = [⟨"BT", []⟩, ⟨"E", []⟩] := ⟨rfl, rfl⟩

end Marginalia
