import Marginalia.Proofs.Content.Spelling

/-!
Content programs printed with as little between their tokens as can be. Next to a delimiter nothing need stand
between two tokens, and keys of dictionaries may be repeated. Every text in the free layout is such a printing.
-/

namespace Marginalia

open Syntax ObjectReader

namespace Spelling

/-- What may stand between the texts of two tokens. -/
abbrev Separation := Bytes → Bytes → Bytes → Prop

/-- White space and comments, or nothing where one of the two bytes next to each other is a delimiter. -/
def Spaced : Separation := fun w g t =>
  Gap g ∧ (g = [] → (∃ c ∈ w.getLast?, isDelimiter c = true) ∨ HeadNot isRegular t)

/-- The same, but the slash that an empty name consists of does not count as a delimiter. -/
def Parted : Separation := fun w g t =>
  Spaced w g t ∧ (w = [0x2F] → g = [] → HeadNot isRegular t)

theorem Parted.gap {w g t : Bytes} (h : Parted w g t) : Gap g := h.1.1

/-- The texts that a part is printed as. -/
inductive Printed (between : Separation) : Part → Bytes → Prop where
  | null : Printed between (.value .null) (ascii "null")
  | trueWord : Printed between (.value (.bool true)) (ascii "true")
  | falseWord : Printed between (.value (.bool false)) (ascii "false")
  | int {negative : Bool} {sgn ds : List Char} {n : Int} (hs : SignText negative sgn)
      (hd : ∀ c ∈ ds, c.isDigit = true) (hne : ds ≠ [])
      (hn : n = if negative then -(Decimal.natOfDigits ds : Int) else Decimal.natOfDigits ds)
      (hw : inWordRange n = true) : Printed between (.value (.int n)) (asciiChars (sgn ++ ds))
  | real {negative : Bool} {sgn whole fraction : List Char} (hs : SignText negative sgn)
      (hw : ∀ c ∈ whole, c.isDigit = true) (hf : ∀ c ∈ fraction, c.isDigit = true)
      (hne : whole ++ fraction ≠ []) :
      Printed between
        (.value (.real ⟨negative, Decimal.natOfDigits (whole ++ fraction), -(fraction.length : Int)⟩))
        (asciiChars (sgn ++ whole ++ '.' :: fraction))
  | name {n w : Bytes} (h : NameText n w) : Printed between (.value (.name n)) (0x2F :: w)
  | literal {depth : Nat} {s w : Bytes} (h : LiteralText depth s w) :
      Printed between (.value (.string s)) (0x28 :: (w ++ [0x29]))
  | hex {ds w : Bytes} (h : HexText ds w) :
      Printed between (.value (.string (pairNibbles ds))) (0x3C :: (w ++ [0x3E]))
  | array {vs : List (Operand Decimal)} {g w : Bytes} (hg : Gap g) (h : Printed between (.items vs) w) :
      Printed between (.value (.array vs)) (0x5B :: (g ++ (w ++ [0x5D])))
  | dict {es : List (Bytes × Operand Decimal)} {g w : Bytes} (hg : Gap g) (h : Printed between (.entries es) w) :
      Printed between (.value (.dict es)) (0x3C :: 0x3C :: (g ++ (w ++ [0x3E, 0x3E])))
  | noItems : Printed between (.items []) []
  | item {v : Operand Decimal} {vs : List (Operand Decimal)} {w g t : Bytes} (hv : Printed between (.value v) w)
      (hg : between w g t) (hvs : Printed between (.items vs) t) : Printed between (.items (v :: vs)) (w ++ (g ++ t))
  | noEntries : Printed between (.entries []) []
  | entry {k : Bytes} {v : Operand Decimal} {es : List (Bytes × Operand Decimal)} {n g w g' t : Bytes}
      (hk : NameText k n) (hg : between (0x2F :: n) g w) (hv : Printed between (.value v) w)
      (hg' : between w g' t) (hes : Printed between (.entries es) t) :
      Printed between (.entries ((k, v) :: es)) (0x2F :: (n ++ (g ++ (w ++ (g' ++ t)))))

/-- The texts that an operation is printed as. -/
inductive OperationPrinted (between : Separation) (word : String) : List (Operand Decimal) → Bytes → Prop where
  | operator (hword : IsOperator word) : OperationPrinted between word [] (ascii word)
  | operand {v : Operand Decimal} {vs : List (Operand Decimal)} {w g t : Bytes}
      (hv : Printed between (.value v) w) (hg : between w g t) (hvs : OperationPrinted between word vs t) :
      OperationPrinted between word (v :: vs) (w ++ (g ++ t))

/-- The texts that the operations of a program are printed as, with white space and comments behind the last. -/
inductive OperationsPrinted (between : Separation) : List (Operation Decimal) → Bytes → Prop where
  | nil : OperationsPrinted between [] []
  | cons {op : Operation Decimal} {ops : List (Operation Decimal)} {w g t : Bytes}
      (hop : OperationPrinted between op.operator op.operands w) (hg : between w g t)
      (hops : OperationsPrinted between ops t) : OperationsPrinted between (op :: ops) (w ++ (g ++ t))

/-- The texts that a program is printed as. -/
def ProgramPrinted (between : Separation) (ops : List (Operation Decimal)) (text : Bytes) : Prop :=
  ∃ g w, Gap g ∧ OperationsPrinted between ops w ∧ text = g ++ w

section Ends

theorem Gap.headNot {g : Bytes} (h : Gap g) (hne : g ≠ []) : HeadNot isRegular g := by
  cases h with
  | nil => exact absurd rfl hne
  | white hc _ => exact headNot_cons (by simp [isRegular, hc]) _
  | comment => exact headNot_cons rfl _

theorem regular_nameText {n w : Bytes} (h : NameText n w) : ∀ c ∈ w, isRegular c = true := by
  have hall : ∀ k : Fin 256, (hexValue? (UInt8.ofNat k)).isSome = true → isRegular (UInt8.ofNat k) = true := by
    decide +kernel
  have hhex : ∀ {c x : UInt8}, hexValue? c = some x → isRegular c = true := by
    intro c x hc
    have h := hall ⟨c.toNat, c.toNat_lt⟩
    simp only [UInt8.ofNat_toNat, hc] at h
    exact h rfl
  induction h with
  | nil => simp
  | byte hc _ _ ih => simpa using ⟨hc, ih⟩
  | escape ha hb _ ih =>
    have hsign : isRegular 0x23 = true := rfl
    simpa using ⟨hsign, hhex ha, hhex hb, ih⟩

/-- That the last byte of a text is none that could stand next to another token. -/
def EndsOpen (w : Bytes) : Prop := w = [0x2F] ∨ ∀ c ∈ w.getLast?, isDelimiter c = false

theorem EndsOpen.of_regular {w : Bytes} (h : ∀ c ∈ w, isRegular c = true) : EndsOpen w := by
  refine .inr fun c hc => ?_
  have hregular := h c (List.mem_of_getLast? hc)
  simp only [isRegular, Bool.and_eq_true, Bool.not_eq_true'] at hregular
  exact hregular.2

/-- Whether the text of a value has a bracket or a parenthesis for its end. -/
def closesItself : Operand Decimal → Bool
  | .string _ | .array _ | .dict _ => true
  | _ => false

theorem Printed.endsOpen {between : Separation} {v : Operand Decimal} {w : Bytes}
    (h : Printed between (.value v) w) (hv : closesItself v = false) : EndsOpen w := by
  have hnumeral : ∀ {cs : List Char}, (∀ c ∈ cs, c.toNat < 0x80 ∧ isRegular (UInt8.ofNat c.toNat) = true) →
      EndsOpen (asciiChars cs) := by
    intro cs hcs
    refine .of_regular fun c hc => ?_
    obtain ⟨d, hd, rfl⟩ := List.mem_map.mp hc
    exact (hcs d hd).2
  cases h with
  | null | trueWord | falseWord => exact .of_regular (by decide)
  | @int _ sgn ds _ hs hd =>
    have hchars : ∀ c ∈ sgn ++ ds ++ [], _ := numeral_chars hs hd (by simp)
    rw [List.append_nil] at hchars
    exact hnumeral hchars
  | real hs hw hf =>
    exact hnumeral (numeral_chars hs hw (List.forall_mem_cons.mpr ⟨.inl rfl, fun c hc => .inr (hf c hc)⟩))
  | @name n w hn =>
    cases hw : w with
    | nil => exact .inl rfl
    | cons c w' =>
      have hlast : (0x2F :: c :: w').getLast? = w.getLast? := by rw [hw, List.getLast?_cons_cons]
      refine .inr fun d hd => ?_
      rcases EndsOpen.of_regular (regular_nameText hn) with hslash | hopen
      · have hregular := regular_nameText hn 0x2F (by simp [hslash])
        cases hregular
      · exact hopen d (hlast ▸ hd)
  | literal | hex | array | dict => cases hv

/-- Where a token could go on, what keeps the next one apart from it is a byte that is not part of any word. -/
theorem Parted.headNot {w g t rest : Bytes} (h : Parted w g t) (hw : EndsOpen w)
    (hr : t = [] → HeadNot isRegular rest) : HeadNot isRegular (g ++ (t ++ rest)) := by
  obtain ⟨⟨hg, hspaced⟩, hslash⟩ := h
  refine headNot_append (if hne : g = [] then hne ▸ headNot_nil else hg.headNot hne) fun hnil => ?_
  refine headNot_append ?_ hr
  rcases hw with hname | hopen
  · exact hslash hname hnil
  · rcases hspaced hnil with ⟨c, hc, hdelimiter⟩ | hstop
    · rw [hopen c hc] at hdelimiter
      cases hdelimiter
    · exact hstop

theorem Printed.ne_nil {between : Separation} {v : Operand Decimal} {w : Bytes}
    (h : Printed between (.value v) w) : w ≠ [] := by
  cases h with
  | null | trueWord | falseWord | name | literal | hex | array | dict => exact List.cons_ne_nil _ _
  | @int _ sgn ds _ hs hd hne => simp [asciiChars, hne]
  | real => simp [asciiChars]

theorem OperationPrinted.ne_nil {between : Separation} {word : String} {vs : List (Operand Decimal)} {w : Bytes}
    (h : OperationPrinted between word vs w) : w ≠ [] := by
  cases h with
  | operator hword => simpa [ascii] using hword.nonempty
  | operand hv => simp [hv.ne_nil]

/-- The operator is the last word of an operation. -/
theorem OperationPrinted.endsOpen {between : Separation} {word : String} {vs : List (Operand Decimal)} {w : Bytes}
    (h : OperationPrinted between word vs w) : ∀ c ∈ w.getLast?, isDelimiter c = false := by
  induction h with
  | operator hword =>
    intro c hc
    obtain ⟨d, hd, rfl⟩ := List.mem_map.mp (List.mem_of_getLast? hc)
    have hregular := (hword.regular d hd).2
    simp only [isRegular, Bool.and_eq_true, Bool.not_eq_true'] at hregular
    exact hregular.2
  | @operand v vs w g t _ _ hvs ih =>
    have hlast : (w ++ (g ++ t)).getLast? = t.getLast? := by
      rw [← List.append_assoc, List.getLast?_append, Option.or_of_isSome]
      simpa using hvs.ne_nil
    intro c hc
    exact ih c (hlast ▸ hc)

end Ends

section Free

theorem Parted.of_headNot {w g t : Bytes} (hg : Gap g) (hstop : HeadNot isRegular (g ++ t)) : Parted w g t := by
  refine ⟨⟨hg, ?_⟩, ?_⟩
  · rintro rfl
    exact .inr hstop
  · rintro _ rfl
    exact hstop

/-- Every text of a part is one that it is printed as. -/
theorem Text.printed {parentheses : Nat} {part : Part} {w : Bytes} (h : Text parentheses part w) :
    Printed Parted part w := by
  induction h with
  | null => exact .null
  | trueWord => exact .trueWord
  | falseWord => exact .falseWord
  | int hs hd hne hn hw => exact .int hs hd hne hn hw
  | real hs hw hf hne => exact .real hs hw hf hne
  | name h => exact .name h
  | literal h => exact .literal h
  | hex h => exact .hex h
  | array hg _ ih => exact .array hg ih
  | dict hg _ ih => exact .dict hg ih
  | noItems => exact .noItems
  | item _ hg hstop _ ihv ih => exact .item ihv (.of_headNot hg hstop) ih
  | noEntries => exact .noEntries
  | entry hk hg hsep _ hg' hstop _ _ ihv ih => exact .entry hk (.of_headNot hg hsep) ihv (.of_headNot hg' hstop) ih

theorem OperationText.printed {parentheses : Nat} {word : String} {vs : List (Operand Decimal)} {w : Bytes}
    (h : OperationText (.free parentheses) word vs w) : OperationPrinted Parted word vs w := by
  induction h with
  | operator hword => exact .operator hword
  | operand hv hg hstop _ ih => exact .operand hv.printed (.of_headNot hg hstop) ih

/-- Every text of a program in the free layout is one that it is printed as. -/
theorem ProgramText.printed {parentheses : Nat} {ops : List (Operation Decimal)} {w : Bytes}
    (h : ProgramText (.free parentheses) ops w) : ProgramPrinted Parted ops w := by
  induction h with
  | @done l hl => exact ⟨l, [], hl, .nil, (List.append_nil l).symm⟩
  | @operation op ops l w t hl hop hstop _ ih =>
    obtain ⟨g, w', hg, hops, rfl⟩ := ih
    exact ⟨l, _, hl, .cons hop.printed (.of_headNot hg hstop) hops, rfl⟩

end Free

end Spelling

end Marginalia
