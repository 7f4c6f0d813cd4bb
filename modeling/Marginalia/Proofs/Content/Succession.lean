import Marginalia.Proofs.Content.Faults

/-!
Content programs that stand one behind another. What stands in front of a program changes nothing in how the
recovering reader reads it: places are counted from further on, and the operations come behind those in front. A
program that ends with a line and leaves nothing open is such a front.
-/

namespace Marginalia

open Syntax ObjectReader

/-- What stands in front of a part of a program: how long it is, the operations in it, newest first, and whether the
part is among the parameters of an inline image. -/
structure Front (α : Type) where
  length : Nat
  operations : List (Operation α)
  image : Bool

/-- A fault, so many bytes further on. -/
def LexFault.behind (length : Nat) (e : LexFault) : LexFault := { e with offset := e.offset + length }

/-- An open container, so many bytes further on. -/
def Container.behind {α : Type} (length : Nat) : Container α → Container α
  | .array start items => .array (start + length) items
  | .dict start entries key => .dict (start + length) entries key

/-- What the reader is inside of, so many bytes further on. The parameters of an inline image have no faults. -/
def Mode.behind (length : Nat) (image : Bool) : Mode → Mode
  | .between => .between
  | .comment => .comment
  | .word start bytes => .word (start + length) bytes
  | .name start bytes => .name (start + length) bytes
  | .literal start string => .literal (start + length) string
  | .less start => .less (start + length)
  | .hex start nibbles => .hex (start + length) nibbles
  | .greater start => .greater (start + length)
  | .imageStart => .imageStart
  | .image scan => .image scan
  | .halted fault => .halted (if image then none else fault.map (LexFault.behind length))

/-- That nothing of an inline image is being read, and no word that has no bytes. -/
def Mode.IsPlain : Mode → Prop
  | .word _ bytes => bytes ≠ []
  | .imageStart | .image _ | .halted none => False
  | _ => True

/-- That what is being read ends where the line ends. -/
def Mode.endsWithLine : Mode → Bool
  | .comment | .word _ _ | .name _ _ => true
  | _ => false

namespace Lexer

variable {α : Type}

/-- The state behind a front. The parameters of an inline image are no operands. -/
def behind (f : Front α) (s : Lexer α) : Lexer α where
  offset := s.offset + f.length
  mode := s.mode.behind f.length f.image
  nesting := s.nesting.map (Container.behind f.length)
  operands := if f.image then [] else s.operands
  operations := s.operations ++ f.operations
  image := f.image || s.image

theorem initial_behind (f : Front α) :
    (initial : Lexer α).behind f = ⟨f.length, .between, [], [], f.operations, f.image⟩ := by
  simp [behind, initial, Mode.behind]

section Behind

variable (f : Front α) (s : Lexer α)

theorem fail_behind (offset : Nat) (kind : FaultKind) :
    (s.behind f).fail (offset + f.length) kind = (s.fail offset kind).behind f := by
  cases hf : f.image <;> cases hs : s.image <;> simp [fail, behind, Mode.behind, LexFault.behind, hf, hs]

theorem deliver_behind (start : Nat) (v : Operand α) :
    (s.behind f).deliver (start + f.length) v = (s.deliver start v).behind f := by
  obtain ⟨offset, mode, nesting, operands, operations, image⟩ := s
  cases nesting with
  | nil => cases hf : f.image <;> cases image <;> simp [deliver, behind, Mode.behind, hf]
  | cons container rest =>
    cases container with
    | array at_ items => rfl
    | dict at_ entries key =>
      cases key with
      | some key => rfl
      | none =>
        cases v with
        | name key => rfl
        | _ => exact fail_behind f ⟨offset, .between, .dict at_ entries none :: rest, operands, operations, image⟩ _ _

theorem closeArray_behind : (s.behind f).closeArray = s.closeArray.behind f := by
  obtain ⟨offset, mode, nesting, operands, operations, image⟩ := s
  cases nesting with
  | nil => exact fail_behind f ⟨offset, mode, [], operands, operations, image⟩ _ _
  | cons container rest =>
    cases container with
    | array at_ items =>
      exact deliver_behind f ⟨offset, mode, rest, operands, operations, image⟩ at_ (.array items.reverse)
    | dict at_ entries key =>
      exact fail_behind f ⟨offset, mode, .dict at_ entries key :: rest, operands, operations, image⟩ _ _

theorem closeDict_behind : (s.behind f).closeDict = s.closeDict.behind f := by
  obtain ⟨offset, mode, nesting, operands, operations, image⟩ := s
  cases nesting with
  | nil => exact fail_behind f ⟨offset, mode, [], operands, operations, image⟩ _ _
  | cons container rest =>
    cases container with
    | array at_ items =>
      exact fail_behind f ⟨offset, mode, .array at_ items :: rest, operands, operations, image⟩ _ _
    | dict at_ entries key =>
      exact deliver_behind f ⟨offset, mode, rest, operands, operations, image⟩ at_ (.dict entries.reverse)

theorem greaterSign_behind : (s.behind f).greaterSign = s.greaterSign.behind f := by
  obtain ⟨offset, mode, nesting, operands, operations, image⟩ := s
  cases nesting with
  | nil => exact fail_behind f ⟨offset, mode, [], operands, operations, image⟩ _ _
  | cons container rest =>
    cases container with
    | array at_ items =>
      exact fail_behind f ⟨offset, mode, .array at_ items :: rest, operands, operations, image⟩ _ _
    | dict at_ entries key => cases key <;> rfl

theorem startToken_behind (c : UInt8) : (s.behind f).startToken c = (s.startToken c).behind f := by
  unfold startToken
  split_ifs
  · rfl
  · rfl
  · rfl
  · rfl
  · rfl
  · rfl
  · exact closeArray_behind f s
  · exact greaterSign_behind f s
  · exact fail_behind f s _ _
  · rfl

theorem hexByte_behind (start : Nat) (nibbles : List UInt8) (c : UInt8) :
    (s.behind f).hexByte (start + f.length) nibbles c = (s.hexByte start nibbles c).behind f := by
  unfold hexByte
  split
  · exact deliver_behind f s _ _
  · split <;> rfl

/-- An operator is taken behind a front as it is in front, but not among the parameters of an inline image. -/
theorem operator_behind (start : Nat) (word : String)
    (h : f.image = true → (s.operator start word).operations = s.operations) :
    (s.behind f).operator (start + f.length) word = (s.operator start word).behind f := by
  obtain ⟨offset, mode, nesting, operands, operations, image⟩ := s
  cases nesting with
  | cons container rest =>
    exact fail_behind f ⟨offset, mode, container :: rest, operands, operations, image⟩ _ _
  | nil =>
    cases image with
    | true =>
      cases hf : f.image <;> by_cases hw : word = "ID" <;> simp [operator, behind, Mode.behind, hf, hw]
    | false =>
      cases hf : f.image with
      | false => simp [operator, behind, Mode.behind, hf]
      | true =>
        have hsame : (⟨word, operands.reverse⟩ : Operation α) :: operations = operations := h hf
        exact absurd hsame (List.cons_ne_self _ _)

theorem closeNesting_behind : (s.behind f).closeNesting = s.closeNesting.behind f := by
  obtain ⟨offset, mode, nesting, operands, operations, image⟩ := s
  cases nesting with
  | nil => rfl
  | cons container rest =>
    cases container with
    | array at_ items =>
      exact fail_behind f ⟨offset, mode, .array at_ items :: rest, operands, operations, image⟩ _ _
    | dict at_ entries key =>
      exact fail_behind f ⟨offset, mode, .dict at_ entries key :: rest, operands, operations, image⟩ _ _

variable [Scalar α]

theorem word_behind (start : Nat) (bytes : Bytes)
    (h : f.image = true → (s.word start bytes).operations = s.operations) :
    (s.behind f).word (start + f.length) bytes = (s.word start bytes).behind f := by
  cases bytes with
  | nil => rfl
  | cons c cs =>
    simp only [word] at h ⊢
    split_ifs at h ⊢
    · exact deliver_behind f s _ _
    · exact deliver_behind f s _ _
    · exact deliver_behind f s _ _
    · exact deliver_behind f s _ _
    · exact operator_behind f s _ _ h

/-- A byte has the same effect behind a front. Among the parameters of an inline image it must not end an operator
or an image. -/
theorem react_behind (c : UInt8)
    (h : f.image = true → (∀ scan, s.mode ≠ .image scan) ∧ (s.react c).operations = s.operations) :
    (s.behind f).react c = (s.react c).behind f := by
  have hmode : ∀ t : Lexer α, (t.behind f).mode = t.mode.behind f.length f.image := fun _ => rfl
  simp only [react, hmode]
  cases hs : s.mode with
  | between => exact startToken_behind f s c
  | comment =>
    simp only [Mode.behind]
    split
    · rfl
    · rfl
  | word start bytes =>
    simp only [Mode.behind]
    cases hc : isRegular c with
    | true => rfl
    | false =>
      have hword := word_behind f s start bytes.reverse fun hf => by
        have hsame := (h hf).2
        rwa [operations_react s hc, ended, hs] at hsame
      simp only [Bool.false_eq_true, if_false, hword, hmode]
      cases ht : (s.word start bytes.reverse).mode with
      | between => exact startToken_behind f _ c
      | _ => rfl
  | name start bytes =>
    simp only [Mode.behind]
    cases hc : isRegular c with
    | true => rfl
    | false =>
      simp only [Bool.false_eq_true, if_false, deliver_behind, hmode]
      cases ht : (s.deliver start (.name (unescapeName bytes.reverse))).mode with
      | between => exact startToken_behind f _ c
      | _ => rfl
  | literal start string =>
    simp only [Mode.behind]
    split
    · rfl
    · exact deliver_behind f s _ _
  | less start =>
    simp only [Mode.behind]
    split
    · rfl
    · exact hexByte_behind f s _ _ _
  | hex start nibbles => exact hexByte_behind f s _ _ _
  | greater start =>
    simp only [Mode.behind]
    split
    · exact closeDict_behind f s
    · exact fail_behind f s _ _
  | imageStart => rfl
  | image scan =>
    cases hf : f.image with
    | true => exact absurd hs ((h hf).1 scan)
    | false =>
      simp only [Mode.behind, scanImage]
      cases scan <;> simp only <;> split <;> simp [behind, Mode.behind, hf]
  | halted fault => simp [behind, Mode.behind, hs]

theorem step_behind (c : UInt8)
    (h : f.image = true → (∀ scan, s.mode ≠ .image scan) ∧ (s.step c).operations = s.operations) :
    (s.behind f).step c = (s.step c).behind f := by
  have hreact := react_behind f s c h
  simp only [step, hreact]
  simp [behind, Nat.add_right_comm]

end Behind

section Plain

/-- That no inline image is being read. -/
structure Plain (s : Lexer α) : Prop where
  image : s.image = false
  mode : s.mode.IsPlain

/-- That a token has been taken, or found wrong. -/
def Settled (s : Lexer α) : Prop := s.mode = .between ∨ ∃ e, s.mode = .halted (some e)

theorem Settled.plain {s : Lexer α} (h : s.Settled) (hi : s.image = false) : s.Plain := by
  refine ⟨hi, ?_⟩
  rcases h with hm | ⟨e, hm⟩
  · rw [hm]
    trivial
  · rw [hm]
    trivial

/-- That a state is one without an inline image, or the one behind the operator of an inline image. -/
def PlainOrImage (s s' : Lexer α) : Prop :=
  s'.Plain ∨ ∃ op, s'.operations = op :: s.operations ∧ op.operator = "BI"

theorem plain_initial : (initial : Lexer α).Plain := ⟨rfl, trivial⟩

variable {s : Lexer α} (hi : s.image = false)
include hi

theorem settled_fail (offset : Nat) (kind : FaultKind) : (s.fail offset kind).Settled := by
  right
  exact ⟨⟨offset, kind⟩, by simp [fail, hi]⟩

theorem settled_deliver (start : Nat) (v : Operand α) :
    (s.deliver start v).Settled ∧ (s.deliver start v).image = false := by
  obtain ⟨offset, mode, nesting, operands, operations, image⟩ := s
  obtain rfl : image = false := hi
  cases nesting with
  | nil => exact ⟨.inl rfl, rfl⟩
  | cons container rest =>
    cases container with
    | array at_ items => exact ⟨.inl rfl, rfl⟩
    | dict at_ entries key =>
      cases key with
      | some key => exact ⟨.inl rfl, rfl⟩
      | none =>
        cases v with
        | name key => exact ⟨.inl rfl, rfl⟩
        | _ => exact ⟨.inr ⟨_, rfl⟩, rfl⟩

theorem plain_deliver (start : Nat) (v : Operand α) : (s.deliver start v).Plain :=
  (settled_deliver hi start v).1.plain (settled_deliver hi start v).2

theorem plain_closeArray : s.closeArray.Plain := by
  unfold closeArray
  split
  · rename_i rest _
    exact plain_deliver (s := { s with nesting := rest }) hi _ _
  · exact (settled_fail hi _ _).plain hi

theorem plain_closeDict : s.closeDict.Plain := by
  unfold closeDict
  split
  · rename_i rest _
    exact plain_deliver (s := { s with nesting := rest }) hi _ _
  · exact (settled_fail hi _ _).plain hi

theorem plain_greaterSign : s.greaterSign.Plain := by
  unfold greaterSign
  split
  · exact ⟨hi, trivial⟩
  · exact ⟨hi, trivial⟩
  · exact (settled_fail hi _ _).plain hi

theorem plain_startToken (hm : s.mode.IsPlain) (c : UInt8) : (s.startToken c).Plain := by
  unfold startToken
  split_ifs
  · exact ⟨hi, hm⟩
  · exact ⟨hi, trivial⟩
  · exact ⟨hi, trivial⟩
  · exact ⟨hi, trivial⟩
  · exact ⟨hi, hm⟩
  · exact ⟨hi, trivial⟩
  · exact plain_closeArray hi
  · exact plain_greaterSign hi
  · exact (settled_fail hi _ _).plain hi
  · exact ⟨hi, List.cons_ne_nil c []⟩

theorem plain_hexByte (start : Nat) (nibbles : List UInt8) (c : UInt8) : (s.hexByte start nibbles c).Plain := by
  unfold hexByte
  split
  · exact plain_deliver hi _ _
  · split
    · exact ⟨hi, trivial⟩
    · exact ⟨hi, trivial⟩

theorem settled_operator (start : Nat) (word : String) :
    (s.operator start word).Settled ∧ s.PlainOrImage (s.operator start word) := by
  unfold operator
  split
  · exact ⟨settled_fail hi _ _, .inl ((settled_fail hi _ _).plain hi)⟩
  · rw [hi]
    refine ⟨.inl rfl, ?_⟩
    by_cases hw : word = "BI"
    · exact .inr ⟨_, rfl, hw⟩
    · exact .inl ⟨by simpa using hw, trivial⟩

variable [Scalar α]

theorem settled_word (start : Nat) {bytes : Bytes} (hne : bytes ≠ []) :
    (s.word start bytes).Settled ∧ s.PlainOrImage (s.word start bytes) := by
  obtain ⟨c, cs, rfl⟩ := List.exists_cons_of_ne_nil hne
  have hvalue : ∀ v, (s.deliver start v).Settled ∧ s.PlainOrImage (s.deliver start v) := by
    intro v
    exact ⟨(settled_deliver hi start v).1, .inl (plain_deliver hi start v)⟩
  simp only [word]
  split_ifs
  · exact hvalue _
  · exact hvalue _
  · exact hvalue _
  · exact hvalue _
  · exact settled_operator hi _ _

omit hi

/-- Only the operator of an inline image leads into one. -/
theorem plain_step (h : s.Plain) (c : UInt8) : s.PlainOrImage (s.step c) := by
  suffices hreact : s.PlainOrImage (s.react c) by
    rcases hreact with hp | hop
    · exact .inl ⟨hp.image, hp.mode⟩
    · exact .inr hop
  have hi := h.image
  have hm := h.mode
  unfold react
  cases hs : s.mode with
  | between => exact .inl (plain_startToken hi hm c)
  | comment =>
    left
    simp only
    split
    · exact ⟨hi, trivial⟩
    · exact h
  | word start bytes =>
    rw [hs] at hm
    have hne : bytes.reverse ≠ [] := List.reverse_ne_nil_iff.mpr hm
    obtain ⟨hsettled, hword⟩ := settled_word hi start hne
    simp only
    split
    · exact .inl ⟨hi, List.cons_ne_nil c bytes⟩
    · -- What the byte does then adds no operation, so an image is one that the word has led into.
      rcases hword with hplain | ⟨op, hops, hop⟩
      · left
        rcases hsettled with hbetween | ⟨e, he⟩
        · simp only [hbetween]
          exact plain_startToken hplain.image hplain.mode c
        · simp only [he]
          exact hplain
      · right
        refine ⟨op, ?_, hop⟩
        rw [← hops]
        split <;> simp [skipSeparator]
  | name start bytes =>
    left
    simp only
    split
    · exact ⟨hi, trivial⟩
    · have hplain := plain_deliver hi start (.name (unescapeName bytes.reverse))
      split
      · exact plain_startToken hplain.image hplain.mode c
      · exact hplain
  | literal start string =>
    left
    simp only
    split
    · exact ⟨hi, trivial⟩
    · exact plain_deliver hi _ _
  | less start =>
    left
    simp only
    split
    · exact ⟨hi, trivial⟩
    · exact plain_hexByte hi _ _ _
  | hex start nibbles => exact .inl (plain_hexByte hi _ _ _)
  | greater start =>
    left
    simp only
    split
    · exact plain_closeDict hi
    · exact (settled_fail hi _ _).plain hi
  | imageStart | image scan =>
    rw [hs] at hm
    exact hm.elim
  | halted fault => exact .inl h

/-- A program without an operation for an inline image leads into none. -/
theorem plain_read (h : s.Plain) {bs : Bytes} (hops : ∀ op ∈ (s.read bs).operations, op.operator ≠ "BI") :
    (s.read bs).Plain := by
  induction bs generalizing s with
  | nil => exact h
  | cons c bs ih =>
    rcases plain_step h c with hstep | ⟨op, hstep, hop⟩
    · exact ih hstep hops
    · refine absurd hop (hops op ?_)
      apply ((s.step c).operations_read bs).subset
      rw [hstep]
      exact List.mem_cons_self

end Plain

section Rest

variable [Scalar α] {s : Lexer α}

/-- A program is read behind a front as it is alone. Among the parameters of an inline image it must have no
operators. -/
theorem read_behind (f : Front α) (h : f.image = true → s.Plain) {bs : Bytes}
    (hops : f.image = true → (s.read bs).operations = s.operations) :
    (s.behind f).read bs = (s.read bs).behind f := by
  -- Operations are never taken back, so if there are no more of them at the end, no byte has added one.
  induction bs generalizing s with
  | nil => rfl
  | cons c bs ih =>
    have hsame : f.image = true → (s.step c).operations = s.operations := by
      intro hf
      have hlater := (s.step c).operations_read bs
      rcases s.step_oneMore c with heq | ⟨op, hop⟩
      · exact heq
      · have hlonger := hlater.length_le
        rw [hop, show ((s.step c).read bs).operations = s.operations from hops hf, List.length_cons] at hlonger
        omega
    have hstep := step_behind f s c fun hf => by
      refine ⟨fun scan hm => ?_, hsame hf⟩
      have hplain := (h hf).mode
      rw [hm] at hplain
      exact hplain
    have hplain : f.image = true → (s.step c).Plain := by
      intro hf
      rcases plain_step (h hf) c with hp | ⟨op, hop, -⟩
      · exact hp
      · rw [hsame hf] at hop
        exact absurd hop.symm (List.cons_ne_self _ _)
    have hread := ih hplain fun hf => (hops hf).trans (hsame hf).symm
    calc (s.behind f).read (c :: bs) = ((s.behind f).step c).read bs := rfl
      _ = ((s.step c).behind f).read bs := by rw [hstep]
      _ = ((s.step c).read bs).behind f := hread

/-- The end of the input is taken behind a front as it is in front. -/
theorem finish_behind {f : Front α} (hf : f.image = false) (s : Lexer α) : (s.behind f).finish = s.finish.behind f := by
  have hmode : ∀ t : Lexer α, (t.behind f).mode = t.mode.behind f.length f.image := fun _ => rfl
  have hword : ∀ start bytes, (s.behind f).word (start + f.length) bytes = (s.word start bytes).behind f :=
    fun start bytes => word_behind f s start bytes fun htrue => absurd htrue (by simp [hf])
  unfold finish
  rw [hmode]
  cases hs : s.mode with
  | between | comment => exact closeNesting_behind f s
  | word start bytes =>
    simp only [Mode.behind, hword]
    generalize s.word start _ = t
    rw [hmode]
    cases t.mode with
    | between => exact closeNesting_behind f t
    | _ => rfl
  | name start bytes =>
    simp only [Mode.behind, deliver_behind]
    generalize s.deliver start _ = t
    rw [hmode]
    cases t.mode with
    | between => exact closeNesting_behind f t
    | _ => rfl
  | literal start string | less start | hex start nibbles | greater start => exact fail_behind f s _ _
  | imageStart | image scan | halted fault => rfl

omit [Scalar α] in
/-- What is read behind a front comes behind the operations in front. -/
theorem decoded_behind {f : Front α} (hf : f.image = false) (s : Lexer α) :
    (s.behind f).decoded = ⟨f.operations.reverse ++ s.decoded.operations, s.decoded.fault.map (.behind f.length)⟩ := by
  have hmode : (s.behind f).mode = s.mode.behind f.length f.image := rfl
  simp only [decoded, hmode]
  cases s.mode <;> simp [behind, Mode.behind, hf]

omit [Scalar α] in
theorem nesting_of_closeNesting (hi : s.image = false) (h : s.closeNesting.decoded.fault = none) : s.nesting = [] := by
  unfold closeNesting at h
  cases hn : s.nesting with
  | nil => rfl
  | cons container rest => cases container <;> simp [hn, fail, hi, decoded] at h

omit [Scalar α] in
/-- A token at the end of the input is in no container, if no fault is found. -/
theorem Settled.closed (h : s.Settled) (hi : s.image = false)
    (hfault : (match s.mode with | .between => s.closeNesting | _ => s).decoded.fault = none) :
    s.mode = .between ∧ s.nesting = [] ∧ s.image = false := by
  rcases h with hbetween | ⟨e, he⟩
  · rw [hbetween] at hfault
    exact ⟨hbetween, nesting_of_closeNesting hi hfault, hi⟩
  · simp [he, decoded] at hfault

/-- Where nothing of an inline image is read and no fault is found, what is open at the end of the input is a comment
or a token that ends there. -/
theorem ended_between (h : s.Plain) (hops : ∀ op ∈ s.finish.operations, op.operator ≠ "BI") (hc : s.mode ≠ .comment)
    (hfault : s.finish.decoded.fault = none) : s.ended.mode = .between ∧ s.ended.nesting = [] ∧ s.ended.image = false := by
  have hi := h.image
  have hm := h.mode
  have hwrong : ∀ offset kind, (s.fail offset kind).decoded.fault ≠ none := by
    intro offset kind
    simp [fail, hi, decoded]
  rw [operations_finish] at hops
  unfold finish at hfault
  unfold ended at hops ⊢
  cases hs : s.mode with
  | between =>
    rw [hs] at hfault
    exact ⟨hs, nesting_of_closeNesting hi hfault, hi⟩
  | comment => exact absurd hs hc
  | word start bytes =>
    rw [hs] at hfault hops hm
    have hne : bytes.reverse ≠ [] := List.reverse_ne_nil_iff.mpr hm
    obtain ⟨hrest, hword⟩ := settled_word hi start hne
    have hplain : (s.word start bytes.reverse).image = false := by
      rcases hword with hp | ⟨op, hop, hbi⟩
      · exact hp.image
      · exact absurd hbi (hops op (by simp [hop]))
    exact hrest.closed hplain hfault
  | name start bytes =>
    rw [hs] at hfault
    obtain ⟨hrest, hplain⟩ := settled_deliver hi start (.name (unescapeName bytes.reverse))
    exact hrest.closed hplain hfault
  | literal start string | less start | hex start nibbles | greater start =>
    rw [hs] at hfault
    exact absurd hfault (hwrong _ _)
  | imageStart | image scan =>
    rw [hs] at hm
    exact hm.elim
  | halted fault =>
    rw [hs] at hfault hm
    cases fault with
    | none => exact hm.elim
    | some e => simp [decoded, hs] at hfault

omit [Scalar α] in
theorem startToken_white {c : UInt8} (hc : isWhite c = true) : s.startToken c = s := by simp [startToken, hc]

/-- A white-space byte ends what ends there anyway. -/
theorem react_white {c : UInt8} (hc : isWhite c = true) (h : s.ended.mode = .between) : s.react c = s.ended := by
  have hregular : isRegular c = false := by simp [isRegular, hc]
  unfold ended at h ⊢
  unfold react
  cases hs : s.mode with
  | between => exact startToken_white hc
  | word start bytes | name start bytes =>
    rw [hs] at h
    simp only [hregular, Bool.false_eq_true, if_false, h]
    exact startToken_white hc
  | _ => simp [hs] at h

omit [Scalar α] in
theorem Settled.stays (h : s.Settled) : s.mode.endsWithLine = false := by
  rcases h with hm | ⟨e, hm⟩
  · rw [hm]
    rfl
  · rw [hm]
    rfl

/-- Behind a line end nothing is open that a line end ends. -/
theorem step_lineEnd (h : s.Plain) : (s.step 0x0A).mode.endsWithLine = false := by
  have hi := h.image
  have hm := h.mode
  have hregular : isRegular 0x0A = false := rfl
  change (s.react 0x0A).mode.endsWithLine = false
  unfold react
  cases hs : s.mode with
  | between =>
    change s.mode.endsWithLine = false
    rw [hs]
    rfl
  | comment => rfl
  | word start bytes =>
    rw [hs] at hm
    obtain ⟨hsettled, -⟩ := settled_word hi start (List.reverse_ne_nil_iff.mpr hm)
    simp only [hregular, Bool.false_eq_true, if_false]
    split
    · rw [startToken_white rfl]
      exact hsettled.stays
    · rfl
    · exact hsettled.stays
  | name start bytes =>
    obtain ⟨hsettled, -⟩ := settled_deliver hi start (.name (unescapeName bytes.reverse))
    simp only [hregular, Bool.false_eq_true, if_false]
    split
    · rw [startToken_white rfl]
      exact hsettled.stays
    · exact hsettled.stays
  | literal start string =>
    simp only
    split
    · rfl
    · exact (settled_deliver hi _ _).1.stays
  | less start | hex start nibbles => rfl
  | greater start => exact (settled_fail hi _ _).stays
  | imageStart | image scan =>
    rw [hs] at hm
    exact hm.elim
  | halted fault =>
    change s.mode.endsWithLine = false
    rw [hs]
    rfl

/-- Where nothing is open that a line end ends, the end of the input ends nothing either. -/
theorem ended_stays (h : s.mode.endsWithLine = false) : s.ended = s ∧ s.mode ≠ .comment := by
  unfold ended
  cases hs : s.mode with
  | comment | word start bytes | name start bytes =>
    rw [hs] at h
    cases h
  | _ => exact ⟨rfl, by simp⟩

end Rest

end Lexer

open Lexer

section Programs

variable {α : Type} [Scalar α] {bs : Bytes}

/-- What a program without inline images begins with leads into none. -/
theorem plain_of_imageless {p t : Bytes}
    (h : ∀ op ∈ (lexOperations (α := α) (p ++ t)).operations, op.operator ≠ "BI") :
    ((initial (α := α)).read p).Plain := by
  apply plain_read plain_initial
  intro op hop
  apply h op
  apply List.mem_reverse.mpr
  rw [read_append]
  exact (((initial (α := α)).read p).operations_read_finish t).subset hop

/-- Behind a program without a fault, an inline image or a comment at its end nothing is open but its last token. -/
theorem ended_eq (hsound : (lexOperations (α := α) bs).fault = none)
    (himageless : ∀ op ∈ (lexOperations (α := α) bs).operations, op.operator ≠ "BI")
    (hcomment : ((initial (α := α)).read bs).mode ≠ .comment) :
    ((initial (α := α)).read bs).ended = ⟨bs.length, .between, [], ((initial (α := α)).read bs).ended.operands,
      (lexOperations bs).operations.reverse, false⟩ := by
  have hplain : ((initial (α := α)).read bs).Plain := by
    apply plain_of_imageless (t := [])
    rwa [List.append_nil]
  have hops : ∀ op ∈ ((initial (α := α)).read bs).finish.operations, op.operator ≠ "BI" := by
    intro op hop
    exact himageless op (List.mem_reverse.mpr hop)
  obtain ⟨hmode, hnesting, himage⟩ := ended_between hplain hops hcomment hsound
  have hoffset : ((initial (α := α)).read bs).ended.offset = bs.length := by
    rw [← react_white (c := 0x20) rfl hmode, offset_react]
    exact (traced_read bs).2
  have hoperations : ((initial (α := α)).read bs).ended.operations = (lexOperations bs).operations.reverse := by
    rw [← operations_finish]
    exact (List.reverse_reverse _).symm
  rw [← hoffset, ← hmode, ← hnesting, ← hoperations, ← himage]

/-- The operands at the end of a program that belong to no operation. -/
def pendingOperands (α : Type) [Scalar α] (bs : Bytes) : List (Operand α) :=
  ((initial (α := α)).read bs).finish.operands.reverse

/-- That a program ends with a line, and leaves nothing open there: it has no fault, no inline image and no operands
for what follows. -/
structure Concluded (α : Type) [Scalar α] (bs : Bytes) : Prop where
  lineEnd : bs.getLast? = some 0x0A
  sound : (lexOperations (α := α) bs).fault = none
  imageless : ∀ op ∈ (lexOperations (α := α) bs).operations, op.operator ≠ "BI"
  taken : pendingOperands α bs = []

/-- A program as the front of what follows. -/
def frontOf (α : Type) [Scalar α] (bs : Bytes) : Front α :=
  ⟨bs.length, (lexOperations bs).operations.reverse, false⟩

/-- Behind a program that leaves nothing open the reader is as in the beginning. -/
theorem Concluded.read (h : Concluded α bs) : (initial (α := α)).read bs = (initial (α := α)).behind (frontOf α bs) := by
  obtain ⟨front, rfl⟩ : ∃ front, bs = front ++ [0x0A] := List.getLast?_eq_some_iff.mp h.lineEnd
  have hstays : ((initial (α := α)).read (front ++ [0x0A])).mode.endsWithLine = false := by
    rw [read_append]
    exact step_lineEnd (plain_of_imageless h.imageless)
  obtain ⟨hended, hcomment⟩ := ended_stays hstays
  have hread := ended_eq h.sound h.imageless hcomment
  have htaken : ((initial (α := α)).read (front ++ [0x0A])).finish.operands = [] :=
    List.reverse_eq_nil_iff.mp h.taken
  rw [hended] at hread
  rw [hread] at htaken
  rw [hread, initial_behind, frontOf, show ((initial (α := α)).read (front ++ [0x0A])).operands = [] from htaken]

/-- A program that is read as behind a front has the operations of both, and its own fault further on. -/
theorem lexOperations_behind {f : Front α} (hf : f.image = false) {front bs : Bytes}
    (h : (initial (α := α)).read (front ++ bs) = ((initial (α := α)).read bs).behind f) :
    lexOperations (α := α) (front ++ bs) =
      ⟨f.operations.reverse ++ (lexOperations bs).operations, (lexOperations (α := α) bs).fault.map (.behind f.length)⟩ := by
  calc lexOperations (α := α) (front ++ bs) = ((initial (α := α)).read (front ++ bs)).finish.decoded := rfl
    _ = (((initial (α := α)).read bs).finish.behind f).decoded := by rw [h, finish_behind hf]
    _ = _ := decoded_behind hf _

/-- A program behind one that is concluded is read as it is alone. -/
theorem lexOperations_append {a : Bytes} (h : Concluded α a) (b : Bytes) :
    lexOperations (α := α) (a ++ b) =
      ⟨(lexOperations a).operations ++ (lexOperations b).operations,
        (lexOperations (α := α) b).fault.map (.behind a.length)⟩ := by
  have hread : (initial (α := α)).read (a ++ b) = ((initial (α := α)).read b).behind (frontOf α a) := by
    rw [read_append, h.read]
    exact read_behind (frontOf α a) nofun nofun
  rw [lexOperations_behind rfl hread]
  simp [frontOf]

/-- A line with a comment in front of an array that is not closed. -/
theorem lexOperations_append_unclosed :
    Concluded Float (ascii "q (\n) Tj % [\n") ∧
      lexOperations (α := Float) (ascii "q (\n) Tj % [\n" ++ ascii "BT [1 0") =
        ⟨(lexOperations (ascii "q (\n) Tj % [\n")).operations ++ (lexOperations (ascii "BT [1 0")).operations,
          (lexOperations (α := Float) (ascii "BT [1 0")).fault.map (.behind (ascii "q (\n) Tj % [\n").length)⟩ ∧
      (lexOperations (α := Float) (ascii "BT [1 0")).fault = some ⟨3, .unterminatedArray⟩ := by
  have hconcluded : Concluded Float (ascii "q (\n) Tj % [\n") := ⟨rfl, rfl, by decide, rfl⟩
  exact ⟨hconcluded, lexOperations_append hconcluded _, rfl⟩

end Programs

end Marginalia
