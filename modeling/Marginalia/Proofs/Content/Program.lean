import Marginalia.Content.Grammar
import Marginalia.Content.Printer
import Marginalia.Proofs.Object.Reading

/-!
A program that is written is read back instruction by instruction, its reals as the numbers that their
numerals stand for.
-/

namespace Marginalia

open Syntax

namespace Object

variable {α : Type} [Scalar α]

/-- What is read where an object was written: a real whose numeral has no decimal places becomes an
integer. -/
def readBack : Object α → Object α
  | .real x =>
    match Scalar.numeral x with
    | some d => if d.exponent < 0 then .real (Scalar.ofDecimalNarrow d) else .int d.whole
    | none => .null
  | v => v

/-- Objects that stand for themselves when they are written as operands of a program. -/
def IsPrintable : Object α → Prop
  | .int n => inWordRange n = true
  | .real x => ∃ d, Scalar.numeral x = some d ∧ (0 ≤ d.exponent → inWordRange d.whole = true)
  | .name n => ∀ c ∈ n, ObjectPrinter.isNameByte c = true
  | .string _ hex => hex = true
  | _ => False

end Object

namespace ObjectReader

variable {α : Type} [Scalar α]

/-- A numeral begins with a digit or with a minus sign. -/
theorem headNot_numeral {negative : Bool} {ds : List Char} (hd : ∀ c ∈ ds, c.isDigit = true)
    (hne : ds ≠ []) {p : UInt8 → Bool} (hp : ∀ c, isDigit c = true → p c = false) (hm : p 0x2D = false)
    (rest : Bytes) : HeadNot p (asciiChars (signChars negative) ++ (asciiChars ds ++ rest)) := by
  cases negative with
  | true =>
    intro c hc
    obtain rfl : 0x2D = c := by simpa [asciiChars, signChars] using hc
    exact hm
  | false => exact fun c hc => hp c (head?_digits hd hne rest c hc)

theorem ne_of_isDigit {w : UInt8} (hw : isDigit w = false) : ∀ c, isDigit c = true → (c == w) = false := by
  intro c hc
  simp only [beq_eq_false_iff_ne, ne_eq]
  rintro rfl
  rw [hc] at hw
  cases hw

theorem simple?_of_numbers {references : Bool} {bs : Bytes} (hn : HeadNot (· == 0x6E) bs)
    (ht : HeadNot (· == 0x74) bs) (hf : HeadNot (· == 0x66) bs)
    (hr : references = false ∨ reference? bs = none) :
    simple? (α := α) references bs = firstOf ((real? bs).map fun (x, r) => (.real x, r)) fun _ =>
      firstOf ((integer? bs).map fun (n, r) => (.int n, r)) fun _ =>
      firstOf ((name? bs).map fun (n, r) => (.name n, r)) fun _ =>
      firstOf ((literal? bs).map fun (s, r) => (.string s false, r)) fun _ =>
      (hexString? bs).map fun (s, r) => (.string s true, r) := by
  have hnull : expect? (ascii "null") bs = none := expect?_of_head (w := 0x6E) hn
  have htrue : expect? (ascii "true") bs = none := expect?_of_head (w := 0x74) ht
  have hfalse : expect? (ascii "false") bs = none := expect?_of_head (w := 0x66) hf
  rcases hr with rfl | hr
  · simp only [simple?, hnull, htrue, hfalse, Bool.false_eq_true, if_false, Option.map_none, firstOf]
  · simp only [simple?, hnull, htrue, hfalse, hr, ite_self, Option.map_none, firstOf]

section Simple

variable (rest : Bytes)

theorem simple?_whole {negative : Bool} {ds : List Char} (hd : ∀ c ∈ ds, c.isDigit = true) (hne : ds ≠ [])
    {n : Int} (hn : n = if negative then -(Decimal.natOfDigits ds : Int) else Decimal.natOfDigits ds)
    (hw : inWordRange n = true) :
    simple? (α := α) false (asciiChars (signChars negative ++ ds) ++ 0x20 :: rest) =
      some (.int n, 0x20 :: rest) := by
  have hs := signText_signChars negative
  rw [asciiChars_append, List.append_assoc, simple?_of_numbers (headNot_numeral hd hne (ne_of_isDigit rfl) rfl _)
    (headNot_numeral hd hne (ne_of_isDigit rfl) rfl _) (headNot_numeral hd hne (ne_of_isDigit rfl) rfl _) (.inl rfl),
    real?_digits hs hd hne (headNot_cons rfl rest) (headNot_cons rfl rest),
    integer?_digits hs hd hne (headNot_cons rfl rest) hn hw]
  rfl

theorem simple?_int {n : Int} (hw : inWordRange n = true) :
    simple? (α := α) false (ObjectPrinter.int n ++ 0x20 :: rest) = some (.int n, 0x20 :: rest) := by
  have hd : ∀ c ∈ Decimal.digitsOf n.natAbs, c.isDigit = true := Decimal.isDigit_digitsOf
  rw [ObjectPrinter.int, ascii_eq, toList_int]
  refine simple?_whole rest hd Nat.toDigits_ne_nil ?_ hw
  rw [Decimal.natOfDigits_eq hd, Decimal.digitsOf, Nat.ofDigitChars_ten_toDigits]
  simp only [decide_eq_true_eq]
  split <;> omega

/-- A numeral is read as a real if it has decimal places, and as an integer otherwise. -/
theorem simple?_numeral {d : Decimal} (hw : 0 ≤ d.exponent → inWordRange d.whole = true) :
    simple? (α := α) false (ascii d.positional ++ 0x20 :: rest) =
      some (if d.exponent < 0 then .real (Scalar.ofDecimalNarrow d) else .int d.whole, 0x20 :: rest) := by
  by_cases he : d.exponent < 0
  · obtain ⟨whole, fraction, htext, hd, -, hne, -⟩ := Decimal.positional_point he
    have hreal := real?_positional (α := α) he (headNot_cons (p := isDigit) (c := 0x20) rfl rest)
    have hb : ascii d.positional ++ 0x20 :: rest = asciiChars (signChars d.negative) ++
        (asciiChars whole ++ (asciiChars ('.' :: fraction) ++ 0x20 :: rest)) := by
      rw [ascii_eq, htext, asciiChars_append, asciiChars_append, List.append_assoc, List.append_assoc]
    rw [hb] at hreal ⊢
    rw [simple?_of_numbers (headNot_numeral hd hne (ne_of_isDigit rfl) rfl _)
      (headNot_numeral hd hne (ne_of_isDigit rfl) rfl _) (headNot_numeral hd hne (ne_of_isDigit rfl) rfl _) (.inl rfl), hreal]
    simp only [Option.map_some, firstOf, he, if_true]
  · obtain ⟨ds, htext, hd, hne, hval⟩ := Decimal.positional_whole (by omega : 0 ≤ d.exponent)
    have hwhole : d.whole = if d.negative then -(Decimal.natOfDigits ds : Int)
        else Decimal.natOfDigits ds := by
      rw [hval]
      rfl
    rw [ascii_eq, htext, simple?_whole rest hd hne hwhole (hw (by omega))]
    simp only [he, if_false]

theorem simple?_name {n : Bytes} (h : ∀ c ∈ n, ObjectPrinter.isNameByte c = true) :
    simple? (α := α) false (ObjectPrinter.name n ++ 0x20 :: rest) = some (.name n, 0x20 :: rest) := by
  have hb : ObjectPrinter.name n ++ 0x20 :: rest = 0x2F :: (n ++ 0x20 :: rest) := by
    rw [print_name h]
    rfl
  obtain ⟨hreal, hint⟩ := real?_of_head (α := α) (c := 0x2F) rfl (n ++ 0x20 :: rest)
  rw [hb, simple?_of_numbers (fun c hc => by cases hc; rfl) (fun c hc => by cases hc; rfl)
    (fun c hc => by cases hc; rfl) (.inl rfl), hreal, hint]
  simp only [name?, nameBytes_append h, firstOf, Option.map_none, Option.map_some]

theorem simple?_hex (s : Bytes) :
    simple? (α := α) false (ObjectPrinter.hexString s ++ 0x20 :: rest) =
      some (.string s true, 0x20 :: rest) := by
  have hhex := hexString?_print s (0x20 :: rest)
  have hb : ObjectPrinter.hexString s ++ 0x20 :: rest =
      0x3C :: (s.flatMap hexPair ++ [0x3E] ++ 0x20 :: rest) := rfl
  rw [hb] at hhex ⊢
  obtain ⟨hreal, hint⟩ := real?_of_head (α := α) (c := 0x3C) rfl
    (s.flatMap hexPair ++ [0x3E] ++ 0x20 :: rest)
  rw [simple?_of_numbers (fun c hc => by cases hc; rfl) (fun c hc => by cases hc; rfl)
    (fun c hc => by cases hc; rfl) (.inl rfl), hreal, hint, hhex]
  rfl

end Simple

/-- An operand is read as it was written, whatever follows behind a blank. -/
theorem value?_print {v : Object α} (hv : v.IsPrintable) (fuel : Nat) (rest : Bytes) :
    value? false (fuel + 1) (v.print ++ 0x20 :: rest) = some (v.readBack, 0x20 :: rest) := by
  have hsimple : simple? (α := α) false (v.print ++ 0x20 :: rest) = some (v.readBack, 0x20 :: rest) := by
    cases v with
    | int n => exact simple?_int rest hv
    | real x =>
      obtain ⟨d, hnum, hrange⟩ := hv
      simp only [Object.print, ObjectPrinter.real, Object.readBack, hnum, simple?_numeral rest hrange]
    | name n => exact simple?_name rest hv
    | string s hex =>
      obtain rfl : hex = true := hv
      exact simple?_hex rest s
    | _ => exact absurd hv (by simp [Object.IsPrintable])
  unfold value?
  rw [hsimple]

theorem isSpace_of_isDigit (c : UInt8) (h : isDigit c = true) : Grammar.isSpace c = false := by
  simp only [Grammar.isSpace, Bool.or_eq_false_iff]
  exact ⟨⟨⟨ne_of_isDigit rfl c h, ne_of_isDigit rfl c h⟩, ne_of_isDigit rfl c h⟩, ne_of_isDigit rfl c h⟩

/-- A written operand begins with a digit, a minus sign, a slash or an angle bracket. -/
theorem headNot_print {v : Object α} (hv : v.IsPrintable) {p : UInt8 → Bool}
    (hd : ∀ c, isDigit c = true → p c = false) (hm : p 0x2D = false) (hs : p 0x2F = false)
    (hl : p 0x3C = false) (rest : Bytes) : HeadNot p (v.print ++ rest) := by
  cases v with
  | int n =>
    rw [Object.print, ObjectPrinter.int, ascii_eq, toList_int, asciiChars_append, List.append_assoc]
    exact headNot_numeral Decimal.isDigit_digitsOf Nat.toDigits_ne_nil hd hm rest
  | real x =>
    obtain ⟨d, hnum, -⟩ := hv
    simp only [Object.print, ObjectPrinter.real, hnum]
    by_cases he : d.exponent < 0
    · obtain ⟨whole, fraction, htext, hw, -, hne, -⟩ := Decimal.positional_point he
      rw [ascii_eq, htext, asciiChars_append, asciiChars_append, List.append_assoc, List.append_assoc]
      exact headNot_numeral hw hne hd hm _
    · obtain ⟨ds, htext, hds, hne, -⟩ := Decimal.positional_whole (by omega : 0 ≤ d.exponent)
      rw [ascii_eq, htext, asciiChars_append, List.append_assoc]
      exact headNot_numeral hds hne hd hm _
  | name n =>
    intro c hc
    obtain rfl : 0x2F = c := by simpa [Object.print, ObjectPrinter.name] using hc
    exact hs
  | string s hex =>
    obtain rfl : hex = true := hv
    intro c hc
    obtain rfl : 0x3C = c := by simpa [Object.print, ObjectPrinter.hexString] using hc
    exact hl
  | _ => exact absurd hv (by simp [Object.IsPrintable])

end ObjectReader

namespace Grammar

open ObjectReader

theorem skipSpaces_of_headNot {bs : Bytes} (h : HeadNot isSpace bs) : skipSpaces bs = bs := by
  cases bs with
  | nil => rfl
  | cons c bs => simp [skipSpaces, h c rfl]

theorem skipSpaces_cons {c : UInt8} (hc : isSpace c = true) {bs : Bytes} (h : HeadNot isSpace bs) :
    skipSpaces (c :: bs) = bs := by
  have hdrop : skipSpaces (c :: bs) = skipSpaces bs := by simp [skipSpaces, hc]
  rw [hdrop, skipSpaces_of_headNot h]

end Grammar

/-- That an operator is a word which no operand and no inline image begins with. -/
structure IsWord (operator : String) : Prop where
  letters : ∀ c ∈ operator.toList, c.isAlpha = true
  nonempty : operator.toList ≠ []
  head : ∀ c ∈ operator.toList.head?, c ≠ 'n' ∧ c ≠ 't' ∧ c ≠ 'f'
  image : ¬ ['B', 'I'] <+: operator.toList

instance (operator : String) : Decidable (IsWord operator) :=
  decidable_of_iff ((∀ c ∈ operator.toList, c.isAlpha = true) ∧ operator.toList ≠ [] ∧
      (∀ c ∈ operator.toList.head?, c ≠ 'n' ∧ c ≠ 't' ∧ c ≠ 'f') ∧ ¬ ['B', 'I'] <+: operator.toList)
    ⟨fun ⟨letters, nonempty, head, image⟩ => ⟨letters, nonempty, head, image⟩,
      fun h => ⟨h.letters, h.nonempty, h.head, h.image⟩⟩

namespace IsWord

open ObjectReader Grammar

theorem letter {c : Char} (h : c.isAlpha = true) : c.toNat < 0x80 ∧
    isOperatorByte (UInt8.ofNat c.toNat) = true ∧ startsNumber (UInt8.ofNat c.toNat) = false ∧
    isSpace (UInt8.ofNat c.toNat) = false ∧ isRegular (UInt8.ofNat c.toNat) = true := by
  have hrange : c.toNat < 128 := by
    delta Char.isAlpha Char.isUpper Char.isLower at h
    simp only [Bool.or_eq_true, Bool.and_eq_true, decide_eq_true_eq] at h
    have h' : (65 ≤ c.toNat ∧ c.toNat ≤ 90) ∨ (97 ≤ c.toNat ∧ c.toNat ≤ 122) := h
    omega
  have hall : ∀ k : Fin 128, (Char.ofNat k).isAlpha = true →
      isOperatorByte (UInt8.ofNat k) = true ∧ startsNumber (UInt8.ofNat k) = false ∧
        isSpace (UInt8.ofNat k) = false ∧ isRegular (UInt8.ofNat k) = true := by
    decide +kernel
  exact ⟨hrange, hall ⟨c.toNat, hrange⟩ (by rwa [Char.ofNat_toNat])⟩

/-- The first byte of a word. -/
theorem bytes {operator : String} (h : IsWord operator) : ∃ c cs, operator.toList = c :: cs ∧
    c.isAlpha = true ∧ ∀ rest, ascii operator ++ rest = UInt8.ofNat c.toNat :: (asciiChars cs ++ rest) := by
  cases hcs : operator.toList with
  | nil => exact absurd hcs h.nonempty
  | cons c cs =>
    refine ⟨c, cs, rfl, h.letters c (by simp [hcs]), fun rest => ?_⟩
    rw [ascii_eq, hcs]
    rfl

theorem decode_ascii {operator : String} (h : IsWord operator) :
    String.ofList (Latin1.decode (ascii operator)) = operator := by
  rw [ascii_eq, decode_asciiChars fun c hc => (letter (h.letters c hc)).1, String.ofList_toList]

/-- The byte of a letter that is not some other character's. -/
theorem byte_ne {c d : Char} (hc : c.isAlpha = true) (hd : d.toNat < 0x80) (h : c ≠ d) :
    (UInt8.ofNat c.toNat == UInt8.ofNat d.toNat) = false := by
  have hlt := (letter hc).1
  simp only [beq_eq_false_iff_ne, ne_eq]
  intro he
  have hn := congrArg UInt8.toNat he
  rw [UInt8.toNat_ofNat_of_lt' (show _ < 256 by omega),
    UInt8.toNat_ofNat_of_lt' (show _ < 256 by omega)] at hn
  exact h (Char.toNat_inj.mp hn)

/-- No operand begins with a word. -/
theorem value?_eq_none {α : Type} [Scalar α] {operator : String} (h : IsWord operator) (fuel : Nat)
    (rest : Bytes) : value? (α := α) false fuel (ascii operator ++ rest) = none := by
  obtain ⟨c, cs, hop, halpha, hbytes⟩ := h.bytes
  obtain ⟨hn, ht, hf⟩ := h.head c (by simp [hop])
  have hlt := (letter halpha).1
  obtain ⟨-, -, hnum, -, -⟩ := letter halpha
  have hother : ∀ d : Char, d.toNat < 0x80 → d.isAlpha = false →
      UInt8.ofNat c.toNat ≠ UInt8.ofNat d.toNat := fun d hd ha he => by
    have := byte_ne halpha hd (fun he => by rw [he, ha] at halpha; cases halpha)
    simp [he] at this
  have hslash : UInt8.ofNat c.toNat ≠ 0x2F := hother '/' (by decide) (by decide)
  have hparen : UInt8.ofNat c.toNat ≠ 0x28 := hother '(' (by decide) (by decide)
  have hless : UInt8.ofNat c.toNat ≠ 0x3C := hother '<' (by decide) (by decide)
  have hbracket : UInt8.ofNat c.toNat ≠ 0x5B := hother '[' (by decide) (by decide)
  have hsimple : simple? (α := α) false (ascii operator ++ rest) = none := by
    rw [hbytes]
    generalize asciiChars cs ++ rest = more
    obtain ⟨hreal, hint⟩ := real?_of_head (α := α) hnum more
    have hname : name? (UInt8.ofNat c.toNat :: more) = none := by simp [name?, hslash]
    have hlit : literal? (UInt8.ofNat c.toNat :: more) = none := by simp [literal?, hparen]
    have hhex : hexString? (UInt8.ofNat c.toNat :: more) = none := by simp [hexString?, hless]
    rw [simple?_of_numbers (fun d hd => by cases hd; exact byte_ne halpha (by decide) hn)
      (fun d hd => by cases hd; exact byte_ne halpha (by decide) ht)
      (fun d hd => by cases hd; exact byte_ne halpha (by decide) hf) (.inl rfl), hreal, hint, hname, hlit, hhex]
    rfl
  cases fuel with
  | zero => simp [value?]
  | succ fuel =>
    unfold value?
    rw [hsimple, hbytes]
    simp only
    split
    · rename_i heq
      exact absurd (List.cons.inj heq).1 hbracket
    · rename_i heq
      exact absurd (List.cons.inj heq).1 hless
    · rfl

theorem takeWhile_word {cs : List Char} (h : ∀ c ∈ cs, c.isAlpha = true) {rest : Bytes}
    (hr : HeadNot isOperatorByte rest) :
    (asciiChars cs ++ rest).takeWhile isOperatorByte = asciiChars cs ∧
      (asciiChars cs ++ rest).dropWhile isOperatorByte = rest := by
  induction cs with
  | nil =>
    cases rest with
    | nil => exact ⟨rfl, rfl⟩
    | cons c rest => simp [asciiChars, hr c rfl]
  | cons c cs ih =>
    obtain ⟨ht, hd⟩ := ih fun c' hc' => h c' (by simp [hc'])
    have hc := (letter (h c (by simp))).2.1
    have hsplit : asciiChars (c :: cs) = UInt8.ofNat c.toNat :: asciiChars cs := rfl
    simp [hsplit, hc, ht, hd]

theorem operator?_eq {operator : String} (h : IsWord operator) {rest : Bytes}
    (hr : HeadNot isOperatorByte rest) : operator? (ascii operator ++ rest) = some (operator, rest) := by
  obtain ⟨ht, hd⟩ := takeWhile_word h.letters hr
  have he : (asciiChars operator.toList).isEmpty = false := by simp [asciiChars, h.nonempty]
  rw [← ascii_eq] at ht hd he
  simp only [operator?, ht, hd, he, Bool.false_eq_true, if_false, h.decode_ascii]

theorem expect?_image {operator : String} (h : IsWord operator) {rest : Bytes}
    (hr : HeadNot isOperatorByte rest) : expect? (ascii "BI") (ascii operator ++ rest) = none := by
  have hbi : ascii "BI" = [0x42, 0x49] := by rfl
  have hno : ¬ (ascii "BI").isPrefixOf (ascii operator ++ rest) = true := by
    intro hp
    obtain ⟨c, cs, hop, halpha, hbytes⟩ := h.bytes
    rw [hbytes, hbi] at hp
    simp only [List.isPrefixOf, Bool.and_eq_true, beq_iff_eq] at hp
    have hc : c = 'B' := Decidable.of_not_not fun hne => by
      have := byte_ne halpha (d := 'B') (by decide) hne
      simp [← hp.1] at this
    cases cs with
    | nil =>
      cases rest with
      | nil => simp [asciiChars] at hp
      | cons r rest =>
        have hI : (0x49 : UInt8) = r := by simpa [asciiChars] using hp.2
        have := hr r rfl
        rw [← hI] at this
        exact absurd this (by decide)
    | cons c' cs =>
      have halpha' := h.letters c' (by simp [hop])
      have hI : (0x49 : UInt8) = UInt8.ofNat c'.toNat := by simpa [asciiChars] using hp.2
      have hc' : c' = 'I' := Decidable.of_not_not fun hne => by
        have := byte_ne halpha' (d := 'I') (by decide) hne
        simp [← hI] at this
      refine h.image ?_
      rw [hop, hc, hc']
      exact ⟨cs, rfl⟩
  rw [expect?, if_neg hno]

end IsWord

namespace Instruction

variable {α : Type} [Scalar α]

/-- That an instruction can be read back. -/
structure IsPrintable (i : Instruction α) : Prop where
  operands : ∀ v ∈ i.operands, v.IsPrintable
  operator : IsWord i.operator

/-- The operation that is read where the instruction was written. -/
def readBack (i : Instruction α) : Operation α :=
  ⟨i.operator, i.operands.map fun v => Operand.ofObject v.readBack⟩

end Instruction

namespace Grammar

open ObjectReader

variable {α : Type} [Scalar α]

/-- Operands are read up to the operator behind them. -/
theorem operands_print {depth : Nat} {vs : List (Object α)} (hv : ∀ v ∈ vs, v.IsPrintable)
    {fuel : Nat} (hf : vs.length < fuel) {operator : String} (ho : IsWord operator) (acc : List (Operand α))
    (rest : Bytes) :
    operands (depth + 1) fuel acc (vs.flatMap (fun v => v.print ++ [0x20]) ++ (ascii operator ++ rest)) =
      (acc.reverse ++ vs.map (fun v => Operand.ofObject v.readBack), ascii operator ++ rest) := by
  induction vs generalizing fuel acc with
  | nil =>
    cases fuel with
    | zero => simp at hf
    | succ fuel =>
      simp only [List.flatMap_nil, List.nil_append, operands, ho.value?_eq_none, List.map_nil,
        List.append_nil]
  | cons v vs ih =>
    cases fuel with
    | zero => simp at hf
    | succ fuel =>
      have hhead : HeadNot isSpace
          (vs.flatMap (fun v => v.print ++ [0x20]) ++ (ascii operator ++ rest)) := by
        cases vs with
        | nil =>
          obtain ⟨c, cs, -, halpha, hbytes⟩ := ho.bytes
          rw [List.flatMap_nil, List.nil_append, hbytes]
          intro d hd
          cases hd
          exact (IsWord.letter halpha).2.2.2.1
        | cons w ws =>
          rw [List.flatMap_cons, List.append_assoc, List.append_assoc]
          exact headNot_print (hv w (by simp)) isSpace_of_isDigit rfl rfl rfl _
      have hb : (v :: vs).flatMap (fun v => v.print ++ [0x20]) ++ (ascii operator ++ rest) =
          v.print ++ 0x20 :: (vs.flatMap (fun v => v.print ++ [0x20]) ++ (ascii operator ++ rest)) := by
        simp
      rw [hb, operands, value?_print (hv v (by simp))]
      simp only [skipSpaces_cons (c := 0x20) rfl hhead]
      rw [ih (fun w hw => hv w (by simp [hw])) (by simpa using hf)]
      simp

theorem skipComments_of_headNot {bs : Bytes} (h : HeadNot (· == 0x25) bs) (fuel : Nat) :
    skipComments fuel bs = bs := by
  cases fuel with
  | zero => rfl
  | succ fuel =>
    have hc : comment? bs = none := by
      unfold comment?
      split
      · exact absurd (h 0x25 rfl) (by decide)
      · rfl
    simp only [skipComments, hc]

/-- Behind an instruction there is an end of line, or nothing. -/
def LineBreak (tail : Bytes) : Prop := tail = [] ∨ ∃ rest, tail = 0x0A :: rest

theorem LineBreak.headNot {tail : Bytes} (h : LineBreak tail) : HeadNot isOperatorByte tail := by
  rcases h with rfl | ⟨rest, rfl⟩
  · intro c hc
    cases hc
  · intro c hc
    cases hc
    rfl

/-- An instruction is read as the operation that it was written from. -/
theorem step_print {i : Instruction α} (hi : i.IsPrintable) {fuel : Nat}
    (hf : i.operands.length < fuel) {tail : Bytes} (ht : LineBreak tail) :
    step fuel (i.print ++ tail) = .operation i.readBack (skipSpaces tail) := by
  have hprint : i.print ++ tail =
      i.operands.flatMap (fun v => v.print ++ [0x20]) ++ (ascii i.operator ++ tail) := by
    rw [Instruction.print, List.append_assoc]
  obtain ⟨c, cs, hop, halpha, hbytes⟩ := hi.operator.bytes
  have hcomment : HeadNot (· == 0x25) (i.print ++ tail) := by
    rw [hprint]
    cases hv : i.operands with
    | nil =>
      rw [List.flatMap_nil, List.nil_append, hbytes]
      intro d hd
      cases hd
      exact IsWord.byte_ne halpha (d := '%') (by decide) (by rintro rfl; exact absurd halpha (by decide))
    | cons v vs =>
      rw [List.flatMap_cons, List.append_assoc, List.append_assoc]
      exact headNot_print (hi.operands v (by simp [hv])) (ne_of_isDigit rfl) rfl rfl rfl _
  have himage : expect? (ascii "BI") (i.print ++ tail) = none := by
    rw [hprint]
    cases hv : i.operands with
    | nil => exact hi.operator.expect?_image ht.headNot
    | cons v vs =>
      rw [List.flatMap_cons, List.append_assoc, List.append_assoc]
      exact expect?_of_head (w := 0x42)
        (headNot_print (hi.operands v (by simp [hv])) (ne_of_isDigit rfl) rfl rfl rfl _)
  cases fuel with
  | zero => simp at hf
  | succ fuel =>
    simp only [step, skipComments_of_headNot hcomment, himage]
    rw [hprint, operands_print hi.operands hf hi.operator]
    simp only [hi.operator.operator?_eq ht.headNot, List.reverse_nil, List.nil_append]
    rfl

/-- At the end of the input reading stops. -/
theorem step_nil (fuel : Nat) : step (α := α) fuel [] = .stop := by
  have hskip : skipComments fuel [] = [] := skipComments_of_headNot headNot_nil fuel
  have himage : expect? (ascii "BI") [] = none := rfl
  have hoperands : operands (α := α) fuel fuel [] [] = ([], []) := by
    cases fuel with
    | zero => rfl
    | succ fuel => simp only [operands, value?_nil, List.reverse_nil]
  simp only [step, hskip, himage, hoperands]
  rfl

/-- A written instruction does not begin with white space. -/
theorem headNot_instruction {i : Instruction α} (hi : i.IsPrintable) (tail : Bytes) :
    HeadNot isSpace (i.print ++ tail) := by
  rw [Instruction.print, List.append_assoc]
  cases hv : i.operands with
  | nil =>
    obtain ⟨c, cs, -, halpha, hbytes⟩ := hi.operator.bytes
    rw [List.flatMap_nil, List.nil_append, hbytes]
    intro d hd
    cases hd
    exact (IsWord.letter halpha).2.2.2.1
  | cons v vs =>
    rw [List.flatMap_cons, List.append_assoc, List.append_assoc]
    exact headNot_print (hi.operands v (by simp [hv])) isSpace_of_isDigit rfl rfl rfl _

theorem printProgram_cons (i : Instruction α) (p : List (Instruction α)) :
    ∃ tail, printProgram (i :: p) = i.print ++ tail ∧ LineBreak tail ∧
      (tail = [] ∧ p = [] ∨ tail = 0x0A :: printProgram p ∧ p ≠ []) := by
  cases p with
  | nil => exact ⟨[], by simp [printProgram], .inl rfl, .inl ⟨rfl, rfl⟩⟩
  | cons j p =>
    refine ⟨0x0A :: printProgram (j :: p), ?_, .inr ⟨_, rfl⟩, .inr ⟨rfl, by simp⟩⟩
    simp [printProgram, List.intercalate]

/-- A program is read as the operations that it was written from. -/
theorem operationsFrom_print {p : List (Instruction α)} (hp : ∀ i ∈ p, i.IsPrintable) {limit fuel : Nat}
    (hl : ∀ i ∈ p, i.operands.length < limit) (hf : p.length < fuel) (acc : List (Operation α)) :
    operationsFrom limit fuel acc (printProgram p) =
      some (acc.reverse ++ p.map Instruction.readBack) := by
  induction p generalizing fuel acc with
  | nil =>
    cases fuel with
    | zero => simp at hf
    | succ fuel =>
      have hnil : printProgram ([] : List (Instruction α)) = [] := rfl
      simp only [hnil, operationsFrom, step_nil, List.map_nil, List.append_nil]
  | cons i p ih =>
    cases fuel with
    | zero => simp at hf
    | succ fuel =>
      obtain ⟨tail, hprint, hbreak, htail⟩ := printProgram_cons i p
      have hskip : skipSpaces tail = printProgram p := by
        rcases htail with ⟨rfl, rfl⟩ | ⟨rfl, hne⟩
        · rfl
        · cases p with
          | nil => exact absurd rfl hne
          | cons j p =>
            obtain ⟨tail', hprint', -⟩ := printProgram_cons j p
            refine skipSpaces_cons rfl ?_
            rw [hprint']
            exact headNot_instruction (hp j (by simp)) tail'
      rw [hprint, operationsFrom, step_print (hp i (by simp)) (hl i (by simp)) hbreak]
      simp only [hskip]
      rw [ih (fun j hj => hp j (by simp [hj])) (fun j hj => hl j (by simp [hj])) (by simpa using hf)]
      simp

theorem length_operands_le (i : Instruction α) : i.operands.length ≤ i.print.length := by
  have hsum : ∀ vs : List (Object α),
      vs.length ≤ (vs.flatMap fun v => v.print ++ [0x20]).length := by
    intro vs
    induction vs with
    | nil => simp
    | cons v vs ih =>
      simp only [List.flatMap_cons, List.length_append, List.length_cons, List.length_nil]
      omega
  rw [Instruction.print, List.length_append]
  have := hsum i.operands
  omega

/-- An operator takes a byte at least. -/
theorem length_print_pos {i : Instruction α} (hi : i.IsPrintable) : 0 < i.print.length := by
  obtain ⟨c, cs, hop, -, -⟩ := hi.operator.bytes
  rw [Instruction.print, List.length_append, ascii_eq, hop]
  have hlen : (asciiChars (c :: cs)).length = cs.length + 1 := by simp [asciiChars]
  omega

theorem length_printProgram {p : List (Instruction α)} (hp : ∀ i ∈ p, i.IsPrintable) :
    p.length ≤ (printProgram p).length ∧
      ∀ i ∈ p, i.operands.length ≤ (printProgram p).length := by
  induction p with
  | nil => simp
  | cons i p ih =>
    obtain ⟨hlen, hops⟩ := ih fun j hj => hp j (by simp [hj])
    obtain ⟨tail, hprint, -, htail⟩ := printProgram_cons i p
    have hpos := length_print_pos (hp i (by simp))
    have hi := length_operands_le i
    rcases htail with ⟨rfl, rfl⟩ | ⟨rfl, -⟩
    · rw [hprint]
      simp only [List.length_append, List.length_nil, List.length_cons, List.mem_singleton, forall_eq]
      omega
    · rw [hprint]
      simp only [List.length_append, List.length_cons, List.mem_cons, forall_eq_or_imp]
      refine ⟨by omega, by omega, fun j hj => ?_⟩
      have := hops j hj
      omega

end Grammar

/-- A program that stands on lines of its own is read as the operations that it was written from. -/
theorem decodeOperations_print {α : Type} [Scalar α] {p : List (Instruction α)}
    (hp : ∀ i ∈ p, i.IsPrintable) :
    decodeOperations (0x0A :: printProgram p) = p.map Instruction.readBack := by
  have hskip : Grammar.skipSpaces (0x0A :: printProgram p) = printProgram p := by
    refine Grammar.skipSpaces_cons rfl ?_
    cases p with
    | nil => exact ObjectReader.headNot_nil
    | cons i p =>
      obtain ⟨tail, hprint, -⟩ := Grammar.printProgram_cons i p
      rw [hprint]
      exact Grammar.headNot_instruction (hp i (by simp)) tail
  obtain ⟨hlen, hops⟩ := Grammar.length_printProgram hp
  have hread : Grammar.operationsFrom (ObjectReader.fuelFor (0x0A :: printProgram p))
      (ObjectReader.fuelFor (0x0A :: printProgram p)) [] (printProgram p) =
      some ([].reverse ++ p.map Instruction.readBack) := by
    refine Grammar.operationsFrom_print hp (fun i hi => ?_) ?_ []
    · have := hops i hi
      simp only [ObjectReader.fuelFor, List.length_cons]
      omega
    · simp only [ObjectReader.fuelFor, List.length_cons]
      omega
  simp only [decodeOperations, Grammar.operations?, hskip, hread, List.reverse_nil, List.nil_append]

end Marginalia
