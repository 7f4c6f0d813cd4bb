import Marginalia.Content.Grammar
import Marginalia.Proofs.Object.Reading

/-!
How content programs are written: the legal texts of every operand, and of programs in two layouts. In the
free layout white space and comments stand between any two tokens. The plain layout is the part of it that
the strict reader follows.

Reals are decimals here, since the two readers of programs take them in different precision.
-/

namespace Marginalia

open Syntax ObjectReader

mutual

/-- The operand with every real in it replaced. -/
def Operand.mapReals {α β : Type} (f : α → β) : Operand α → Operand β
  | .null => .null
  | .bool b => .bool b
  | .int n => .int n
  | .real x => .real (f x)
  | .name n => .name n
  | .string s => .string s
  | .array vs => .array (Operand.mapItems f vs)
  | .dict es => .dict (Operand.mapEntries f es)
  | .ref id => .ref id

def Operand.mapItems {α β : Type} (f : α → β) : List (Operand α) → List (Operand β)
  | [] => []
  | v :: vs => Operand.mapReals f v :: Operand.mapItems f vs

def Operand.mapEntries {α β : Type} (f : α → β) : List (Bytes × Operand α) → List (Bytes × Operand β)
  | [] => []
  | (k, v) :: es => (k, Operand.mapReals f v) :: Operand.mapEntries f es

end

/-- The operation with every real among its operands replaced. -/
def Operation.mapReals {α β : Type} (f : α → β) (op : Operation α) : Operation β :=
  ⟨op.operator, op.operands.map (Operand.mapReals f)⟩

namespace Spelling

/-- White space and comments. A comment goes on to the next line end. -/
inductive Gap : Bytes → Prop where
  | nil : Gap []
  | white {c : UInt8} {g : Bytes} (hc : isWhite c = true) (h : Gap g) : Gap (c :: g)
  | comment {text g : Bytes} {e : UInt8} (ht : ∀ c ∈ text, isLineEnd c = false)
      (he : isLineEnd e = true) (h : Gap g) : Gap (0x25 :: (text ++ e :: g))

/-- The bytes of a name and what may stand for them: any regular byte but the number sign for itself, and
the number sign with two hexadecimal digits for any byte. -/
inductive NameText : Bytes → Bytes → Prop where
  | nil : NameText [] []
  | byte {c : UInt8} {n w : Bytes} (hc : isRegular c = true) (hne : c ≠ 0x23) (h : NameText n w) :
      NameText (c :: n) (c :: w)
  | escape {a b x y : UInt8} {n w : Bytes} (ha : hexValue? a = some x) (hb : hexValue? b = some y)
      (h : NameText n w) : NameText ((x * 16 + y) :: n) (0x23 :: a :: b :: w)

/-- The number that a row of octal digits denotes. -/
def octalNumber (ds : Bytes) : Nat :=
  ds.foldl (fun n c => n * 8 + ((octalValue? c).getD 0).toNat) 0

/-- The bytes of a literal string and what may stand for them between the outer parentheses, where pairs of
parentheses are nested up to a depth. An octal escape has three digits, unless no digit follows it. -/
inductive LiteralText : Nat → Bytes → Bytes → Prop where
  | nil {depth : Nat} : LiteralText depth [] []
  | byte {depth : Nat} {c : UInt8} {s w : Bytes} (hopen : c ≠ 0x28) (hclose : c ≠ 0x29) (hescape : c ≠ 0x5C)
      (h : LiteralText depth s w) : LiteralText depth (c :: s) (c :: w)
  | nested {depth : Nat} {inner s v w : Bytes} (hin : LiteralText depth inner v)
      (h : LiteralText (depth + 1) s w) :
      LiteralText (depth + 1) (0x28 :: (inner ++ 0x29 :: s)) (0x28 :: (v ++ 0x29 :: w))
  | escape {depth : Nat} {c : UInt8} {s w : Bytes} (hoctal : octalValue? c = none)
      (hline : isLineEnd c = false) (h : LiteralText depth s w) :
      LiteralText depth (Literal.escaped c :: s) (0x5C :: c :: w)
  | octal {depth : Nat} {ds s w : Bytes} (hpos : ds ≠ []) (hlen : ds.length ≤ 3)
      (hoctal : ∀ c ∈ ds, (octalValue? c).isSome = true)
      (hend : ds.length = 3 ∨ HeadNot (fun c => (octalValue? c).isSome) w) (h : LiteralText depth s w) :
      LiteralText depth (UInt8.ofNat (octalNumber ds) :: s) (0x5C :: (ds ++ w))
  | lineFeed {depth : Nat} {s w : Bytes} (h : LiteralText depth s w) : LiteralText depth s (0x5C :: 10 :: w)
  | lineEnd {depth : Nat} {s w : Bytes} (h : LiteralText depth s w) :
      LiteralText depth s (0x5C :: 13 :: 10 :: w)
  | carriageReturn {depth : Nat} {s w : Bytes} (hend : HeadNot (· == 10) w) (h : LiteralText depth s w) :
      LiteralText depth s (0x5C :: 13 :: w)

/-- Hexadecimal digits with white space among them. -/
inductive HexText : List UInt8 → Bytes → Prop where
  | nil : HexText [] []
  | digit {c d : UInt8} {ds w : Bytes} (hc : hexValue? c = some d) (h : HexText ds w) :
      HexText (d :: ds) (c :: w)
  | white {c : UInt8} {ds w : Bytes} (hc : isWhite c = true) (h : HexText ds w) : HexText ds (c :: w)

/-- What is written: an operand, or what stands inside an array or a dictionary. -/
inductive Part where
  | value (v : Operand Decimal)
  | items (vs : List (Operand Decimal))
  | entries (es : List (Bytes × Operand Decimal))

/-- The texts that stand for a part. What could go on a token is kept apart from it by white space, by a
comment or by a delimiter. -/
inductive Text (parentheses : Nat) : Part → Bytes → Prop where
  | null : Text parentheses (.value .null) (ascii "null")
  | trueWord : Text parentheses (.value (.bool true)) (ascii "true")
  | falseWord : Text parentheses (.value (.bool false)) (ascii "false")
  | int {negative : Bool} {sgn ds : List Char} {n : Int} (hs : SignText negative sgn)
      (hd : ∀ c ∈ ds, c.isDigit = true) (hne : ds ≠ [])
      (hn : n = if negative then -(Decimal.natOfDigits ds : Int) else Decimal.natOfDigits ds)
      (hw : inWordRange n = true) : Text parentheses (.value (.int n)) (asciiChars (sgn ++ ds))
  | real {negative : Bool} {sgn whole fraction : List Char} (hs : SignText negative sgn)
      (hw : ∀ c ∈ whole, c.isDigit = true) (hf : ∀ c ∈ fraction, c.isDigit = true)
      (hne : whole ++ fraction ≠ []) :
      Text parentheses
        (.value (.real ⟨negative, Decimal.natOfDigits (whole ++ fraction), -(fraction.length : Int)⟩))
        (asciiChars (sgn ++ whole ++ '.' :: fraction))
  | name {n w : Bytes} (h : NameText n w) : Text parentheses (.value (.name n)) (0x2F :: w)
  | literal {s w : Bytes} (h : LiteralText parentheses s w) :
      Text parentheses (.value (.string s)) (0x28 :: (w ++ [0x29]))
  | hex {ds w : Bytes} (h : HexText ds w) :
      Text parentheses (.value (.string (pairNibbles ds))) (0x3C :: (w ++ [0x3E]))
  | array {vs : List (Operand Decimal)} {g w : Bytes} (hg : Gap g) (h : Text parentheses (.items vs) w) :
      Text parentheses (.value (.array vs)) (0x5B :: (g ++ (w ++ [0x5D])))
  | dict {es : List (Bytes × Operand Decimal)} {g w : Bytes} (hg : Gap g)
      (h : Text parentheses (.entries es) w) :
      Text parentheses (.value (.dict es)) (0x3C :: 0x3C :: (g ++ (w ++ [0x3E, 0x3E])))
  | noItems : Text parentheses (.items []) []
  | item {v : Operand Decimal} {vs : List (Operand Decimal)} {w g t : Bytes}
      (hv : Text parentheses (.value v) w) (hg : Gap g) (hstop : HeadNot isRegular (g ++ t))
      (hvs : Text parentheses (.items vs) t) : Text parentheses (.items (v :: vs)) (w ++ (g ++ t))
  | noEntries : Text parentheses (.entries []) []
  | entry {k : Bytes} {v : Operand Decimal} {es : List (Bytes × Operand Decimal)} {n g w g' t : Bytes}
      (hk : NameText k n) (hg : Gap g) (hsep : HeadNot isRegular (g ++ w)) (hv : Text parentheses (.value v) w)
      (hg' : Gap g') (hstop : HeadNot isRegular (g' ++ t)) (hfresh : k ∉ es.map Prod.fst)
      (hes : Text parentheses (.entries es) t) :
      Text parentheses (.entries ((k, v) :: es)) (0x2F :: (n ++ (g ++ (w ++ (g' ++ t)))))

/-- How programs are laid out: what may stand behind an operand and in front of an operation, which operators
there are, and how deep the parentheses of strings are nested. -/
structure Layout where
  gap : Bytes → Prop
  lead : Bytes → Prop
  operator : String → Prop
  parentheses : Nat

/-- The texts of an operation: operands, and the operator behind them. -/
inductive OperationText (L : Layout) (word : String) : List (Operand Decimal) → Bytes → Prop where
  | operator (hword : L.operator word) : OperationText L word [] (ascii word)
  | operand {v : Operand Decimal} {vs : List (Operand Decimal)} {w g t : Bytes}
      (hv : Text L.parentheses (.value v) w) (hg : L.gap g) (hstop : HeadNot isRegular (g ++ t))
      (hvs : OperationText L word vs t) : OperationText L word (v :: vs) (w ++ (g ++ t))

/-- The texts of a program. -/
inductive ProgramText (L : Layout) : List (Operation Decimal) → Bytes → Prop where
  | done {l : Bytes} (hl : L.lead l) : ProgramText L [] l
  | operation {op : Operation Decimal} {ops : List (Operation Decimal)} {l w t : Bytes} (hl : L.lead l)
      (hop : OperationText L op.operator op.operands w) (hstop : HeadNot isRegular t)
      (hops : ProgramText L ops t) : ProgramText L (op :: ops) (l ++ (w ++ t))

/-- That every text in the one layout is one in the other. -/
structure Layout.Within (L M : Layout) : Prop where
  gap : ∀ g, L.gap g → M.gap g
  lead : ∀ l, L.lead l → M.lead l
  operator : ∀ word, L.operator word → M.operator word
  parentheses : L.parentheses = M.parentheses

theorem OperationText.within {L M : Layout} (h : L.Within M) {word : String} {vs : List (Operand Decimal)}
    {w : Bytes} (ht : OperationText L word vs w) : OperationText M word vs w := by
  induction ht with
  | operator hword => exact .operator (h.operator _ hword)
  | operand hv hg hstop _ ih => exact .operand (h.parentheses ▸ hv) (h.gap _ hg) hstop ih

theorem OperationText.isOperator {L : Layout} {word : String} {vs : List (Operand Decimal)} {w : Bytes}
    (h : OperationText L word vs w) : L.operator word := by
  induction h with
  | operator hword => exact hword
  | operand _ _ _ _ ih => exact ih

theorem ProgramText.within {L M : Layout} (h : L.Within M) {ops : List (Operation Decimal)} {w : Bytes}
    (ht : ProgramText L ops w) : ProgramText M ops w := by
  induction ht with
  | done hl => exact .done (h.lead _ hl)
  | operation hl hop hstop _ ih => exact .operation (h.lead _ hl) (hop.within h) hstop ih

/-- That a word is an operator: not a number, nor a keyword, nor what an inline image begins with. -/
structure IsOperator (word : String) : Prop where
  regular : ∀ c ∈ word.toList, c.toNat < 0x80 ∧ isRegular (UInt8.ofNat c.toNat) = true
  nonempty : word.toList ≠ []
  number : ∀ c ∈ word.toList.head?, startsNumber (UInt8.ofNat c.toNat) = false
  keyword : word ∉ ["null", "true", "false", "BI"]

/-- That a word is an operator for the strict reader, which knows no digits in operators and takes a keyword
from the front of a word. -/
structure IsPlainOperator (word : String) : Prop where
  letters : ∀ c ∈ word.toList, c.toNat < 0x80 ∧ Grammar.isOperatorByte (UInt8.ofNat c.toNat) = true
  nonempty : word.toList ≠ []
  keyword : ∀ key ∈ ["null", "true", "false", "BI"], ¬ key.toList <+: word.toList

instance (word : String) : Decidable (IsPlainOperator word) :=
  decidable_of_iff ((∀ c ∈ word.toList, c.toNat < 0x80 ∧ Grammar.isOperatorByte (UInt8.ofNat c.toNat) = true) ∧
      word.toList ≠ [] ∧ ∀ key ∈ ["null", "true", "false", "BI"], ¬ key.toList <+: word.toList)
    ⟨fun ⟨letters, nonempty, keyword⟩ => ⟨letters, nonempty, keyword⟩,
      fun h => ⟨h.letters, h.nonempty, h.keyword⟩⟩

/-- Comments on lines of their own. -/
inductive Comments : Bytes → Prop where
  | nil : Comments []
  | line {text e g : Bytes} (ht : ∀ c ∈ text, isLineEnd c = false) (he : e ∈ ([[10], [13], [13, 10]] : List Bytes))
      (h : Comments g) : Comments (0x25 :: (text ++ (e ++ g)))

namespace Layout

/-- White space and comments between any two tokens, strings nested up to a depth. -/
def free (parentheses : Nat) : Layout := ⟨Gap, Gap, IsOperator, parentheses⟩

/-- Blanks, tabs and line ends between tokens, and comments in front of operations only, with no white space
behind them. -/
def plain : Layout where
  gap g := ∀ c ∈ g, Grammar.isSpace c = true
  lead l := ∃ g c, l = g ++ c ∧ (∀ b ∈ g, Grammar.isSpace b = true) ∧ Comments c
  operator := IsPlainOperator
  parentheses := maxParentheses

end Layout

theorem isOperatorByte_class {c : UInt8} (h : Grammar.isOperatorByte c = true) :
    isRegular c = true ∧ startsNumber c = false := by
  have hall : ∀ k : Fin 256, Grammar.isOperatorByte (UInt8.ofNat k) = true →
      isRegular (UInt8.ofNat k) = true ∧ startsNumber (UInt8.ofNat k) = false := by decide +kernel
  simpa using hall ⟨c.toNat, c.toNat_lt⟩ (by simpa using h)

theorem IsPlainOperator.isOperator {word : String} (h : IsPlainOperator word) : IsOperator word where
  regular c hc := ⟨(h.letters c hc).1, (isOperatorByte_class (h.letters c hc).2).1⟩
  nonempty := h.nonempty
  number c hc := (isOperatorByte_class (h.letters c (List.mem_of_mem_head? hc)).2).2
  keyword hmem := h.keyword word hmem (List.prefix_refl _)

theorem Gap.of_spaces {g : Bytes} (h : ∀ c ∈ g, Grammar.isSpace c = true) {g' : Bytes} (hg' : Gap g') :
    Gap (g ++ g') := by
  induction g with
  | nil => exact hg'
  | cons c g ih =>
    have hc := h c (by simp)
    refine .white ?_ (ih fun d hd => h d (by simp [hd]))
    simp only [Grammar.isSpace, Bool.or_eq_true, beq_iff_eq] at hc
    rcases hc with ((rfl | rfl) | rfl) | rfl <;> rfl

theorem Gap.of_comments {g : Bytes} (h : Comments g) : Gap g := by
  induction h with
  | nil => exact .nil
  | @line text e g ht he _ ih =>
    simp only [List.mem_cons, List.not_mem_nil, or_false] at he
    rcases he with rfl | rfl | rfl
    · exact .comment ht rfl ih
    · exact .comment ht rfl ih
    · exact .comment (e := 13) ht rfl (.white rfl ih)

/-- The plain layout is part of the free one. -/
theorem plain_within : Layout.plain.Within (.free maxParentheses) where
  gap g hg := List.append_nil g ▸ Gap.of_spaces hg .nil
  lead := by
    rintro l ⟨g, c, rfl, hg, hc⟩
    exact .of_spaces hg (.of_comments hc)
  operator _ h := h.isOperator
  parentheses := rfl

section Heads

/-- Bytes that a value begins with. -/
def startsValue (c : UInt8) : Bool :=
  startsNumber c || [0x6E, 0x74, 0x66, 0x2F, 0x28, 0x3C, 0x5B].contains c

theorem startsNumber_head {negative : Bool} {sgn ds rest : List Char} (hs : SignText negative sgn)
    (hd : ∀ c ∈ ds, c.isDigit = true) (hrest : ds = [] → rest.head? = some '.') :
    ∃ c cs, asciiChars (sgn ++ ds ++ rest) = c :: cs ∧ startsNumber c = true := by
  cases hs with
  | plus => exact ⟨0x2B, _, rfl, rfl⟩
  | minus => exact ⟨0x2D, _, rfl, rfl⟩
  | plain =>
    cases ds with
    | nil =>
      obtain ⟨cs, rfl⟩ := List.head?_eq_some_iff.mp (hrest rfl)
      exact ⟨0x2E, _, rfl, rfl⟩
    | cons d ds =>
      refine ⟨_, _, rfl, ?_⟩
      simp [startsNumber, isDigit_ofNat (hd d (by simp))]

theorem Text.head {parentheses : Nat} {v : Operand Decimal} {w : Bytes}
    (h : Text parentheses (.value v) w) : ∃ c cs, w = c :: cs ∧ startsValue c = true := by
  have hnumber : ∀ {c : UInt8}, startsNumber c = true → startsValue c = true := by
    intro c hc
    rw [startsValue, hc, Bool.true_or]
  cases h with
  | null | trueWord | falseWord | name | literal | hex | array | dict => exact ⟨_, _, rfl, rfl⟩
  | @int _ sgn ds _ hs hd hne =>
    obtain ⟨c, cs, hw, hc⟩ := startsNumber_head hs hd (fun h => absurd h hne : ds = [] → [].head? = some '.')
    rw [List.append_nil] at hw
    exact ⟨c, cs, hw, hnumber hc⟩
  | real hs hw =>
    obtain ⟨c, cs, hw, hc⟩ := startsNumber_head hs hw fun _ => List.head?_cons
    exact ⟨c, cs, hw, hnumber hc⟩

theorem startsValue_white {c : UInt8} (h : startsValue c = true) :
    isWhite c = false ∧ Grammar.isSpace c = false := by
  have hall : ∀ k : Fin 256, startsValue (UInt8.ofNat k) = true →
      isWhite (UInt8.ofNat k) = false ∧ Grammar.isSpace (UInt8.ofNat k) = false := by decide +kernel
  simpa using hall ⟨c.toNat, c.toNat_lt⟩ (by simpa using h)

theorem startsValue_ne {c d : UInt8} (h : startsValue c = true) (hd : startsValue d = false) :
    (c == d) = false := by
  simp only [beq_eq_false_iff_ne, ne_eq]
  rintro rfl
  rw [h] at hd
  cases hd

end Heads

end Spelling

end Marginalia
