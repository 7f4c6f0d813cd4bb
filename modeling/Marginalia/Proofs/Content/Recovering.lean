import Marginalia.Proofs.Content.Printing
import Marginalia.Proofs.Content.Strict
import Marginalia.Proofs.Number.Plain
import Marginalia.Proofs.Text.Encoding

/-!
The recovering reader follows every program in the free layout to its end, and finds no fault in it.

Its state between tokens is what counts: where the reader stands and what it is inside of are left out of the
comparison of states.
-/

namespace Marginalia

open Syntax ObjectReader

namespace Lexer

variable {α : Type}

/-- The state with the reader between tokens at an offset. -/
def between (s : Lexer α) (offset : Nat) : Lexer α := { s with mode := .between, offset := offset }

/-- That the reader expects a value, not the key of a dictionary. -/
def Awaits (s : Lexer α) : Prop := ∀ at_ es rest, s.nesting ≠ .dict at_ es none :: rest

/-- The state with a value taken. -/
def take (s : Lexer α) (v : Operand α) : Lexer α := s.deliver 0 v

variable [Scalar α]

/-- The state at the end of an input. -/
def run (s : Lexer α) (bs : Bytes) : Lexer α := (s.read bs).finish

theorem run_cons (s : Lexer α) (c : UInt8) (bs : Bytes) : s.run (c :: bs) = (s.step c).run bs := rfl

/-- That reading an input comes to what is left of it in a state between tokens. -/
def Leads (s : Lexer α) (bs : Bytes) (s' : Lexer α) (r : Bytes) : Prop :=
  ∃ offset, s.run bs = (s'.between offset).run r

/-- That reading leads from one state between tokens to another. -/
def Goes (s : Lexer α) (bs : Bytes) (s' : Lexer α) (r : Bytes) : Prop :=
  ∀ offset, (s.between offset).Leads bs s' r

theorem Goes.refl (s : Lexer α) (bs : Bytes) : s.Goes bs s bs := fun offset => ⟨offset, rfl⟩

theorem Leads.trans {s s' s'' : Lexer α} {bs r r' : Bytes} (h : s.Leads bs s' r) (h' : s'.Goes r s'' r') :
    s.Leads bs s'' r' := by
  obtain ⟨o, ho⟩ := h
  obtain ⟨o', ho'⟩ := h' o
  exact ⟨o', ho.trans ho'⟩

theorem Goes.trans {s s' s'' : Lexer α} {bs r r' : Bytes} (h : s.Goes bs s' r) (h' : s'.Goes r s'' r') :
    s.Goes bs s'' r' := fun offset => (h offset).trans h'

theorem Leads.step {s s' : Lexer α} {c : UInt8} {bs r : Bytes} (h : (s.step c).Leads bs s' r) :
    s.Leads (c :: bs) s' r := h

omit [Scalar α] in
theorem deliver_between {s : Lexer α} (h : s.Awaits) (mode : Mode) (offset start : Nat) (v : Operand α) :
    { s with mode := mode, offset := offset }.deliver start v = (s.take v).between offset := by
  cases hn : s.nesting with
  | nil => cases hi : s.image <;> simp [deliver, take, between, hn, hi]
  | cons container rest =>
    cases container with
    | array => simp [deliver, take, between, hn]
    | dict at_ es key =>
      cases key with
      | none => exact absurd hn (h at_ es rest)
      | some key => simp [deliver, take, between, hn]

section Tokens

open Spelling

theorem goes_white {s : Lexer α} {c : UInt8} (hc : isWhite c = true) (rest : Bytes) :
    s.Goes (c :: rest) s rest := by
  intro offset
  refine ⟨offset + 1, ?_⟩
  simp [run_cons, step, react, between, startToken, hc]

theorem leads_comment {s : Lexer α} {text : Bytes} {e : UInt8} (ht : ∀ c ∈ text, isLineEnd c = false)
    (he : isLineEnd e = true) (offset : Nat) (rest : Bytes) :
    { s with mode := .comment, offset := offset }.Leads (text ++ e :: rest) s rest := by
  induction text generalizing offset with
  | nil =>
    refine ⟨offset + 1, ?_⟩
    simp [run_cons, step, react, between, he]
  | cons c text ih =>
    have hstep : Lexer.step { s with mode := .comment, offset := offset } c =
        { s with mode := .comment, offset := offset + 1 } := by
      simp [step, react, ht c (by simp)]
    exact Leads.step (hstep ▸ ih (fun d hd => ht d (by simp [hd])) (offset + 1))

theorem goes_gap {s : Lexer α} {g : Bytes} (h : Gap g) (rest : Bytes) : s.Goes (g ++ rest) s rest := by
  induction h with
  | nil => exact .refl s rest
  | white hc _ ih => exact (goes_white hc _).trans ih
  | @comment text g e ht he _ ih =>
    intro offset
    have hin : text ++ e :: g ++ rest = text ++ e :: (g ++ rest) := by simp
    rw [List.cons_append, hin]
    exact (leads_comment ht he (offset + 1) _).trans ih

omit [Scalar α] in
theorem startToken_regular {s : Lexer α} {c : UInt8} (hc : isRegular c = true) :
    s.startToken c = { s with mode := .word s.offset [c] } := by
  simp only [isRegular, isDelimiter, Bool.and_eq_true, Bool.not_eq_true', Bool.or_eq_false_iff] at hc
  simp only [startToken, isDelimiter, hc, Bool.or_self, Bool.false_eq_true, if_false]

/-- A word goes on over regular bytes. -/
theorem run_word_bytes {bs : Bytes} (hbs : ∀ c ∈ bs, isRegular c = true) (s : Lexer α) (start offset : Nat)
    (before rest : Bytes) : ∃ offset',
      { s with mode := .word start before, offset := offset }.run (bs ++ rest) =
        { s with mode := .word start (bs.reverse ++ before), offset := offset' }.run rest := by
  induction bs generalizing before offset with
  | nil => exact ⟨offset, rfl⟩
  | cons c bs ih =>
    obtain ⟨offset', h⟩ := ih (fun d hd => hbs d (by simp [hd])) (offset + 1) (c :: before)
    refine ⟨offset', ?_⟩
    have hstep : Lexer.step { s with mode := .word start before, offset := offset } c =
        { s with mode := .word start (c :: before), offset := offset + 1 } := by
      simp [step, react, hbs c (by simp)]
    rw [List.cons_append, run_cons, hstep, h]
    simp

/-- A word ends in front of what is no part of it. -/
theorem run_word {s t : Lexer α} {start : Nat} {bytes rest : Bytes} (hs : s.mode = .word start bytes)
    (ht : s.word start bytes.reverse = t) (hm : t.mode = .between) (hr : HeadNot isRegular rest) :
    s.run rest = t.run rest := by
  cases rest with
  | nil => simp only [run, read, List.foldl_nil, finish, hs, ht, hm]
  | cons c rest =>
    have hc : isRegular c = false := hr c rfl
    simp only [run_cons, step, react, hs, hm, hc, ht, Bool.false_eq_true, if_false]

/-- A word is taken for what it stands for. -/
theorem goes_word {bytes : Bytes} (hne : bytes ≠ []) (hregular : ∀ c ∈ bytes, isRegular c = true)
    {s t : Lexer α}
    (ht : ∀ mode offset start, { s with mode := mode, offset := offset }.word start bytes = t.between offset)
    {rest : Bytes} (hr : HeadNot isRegular rest) : s.Goes (bytes ++ rest) t rest := by
  intro offset
  obtain ⟨c, cs, rfl⟩ := List.exists_cons_of_ne_nil hne
  obtain ⟨hc, hcs⟩ := List.forall_mem_cons.mp hregular
  obtain ⟨offset', hbytes⟩ := run_word_bytes hcs s offset (offset + 1) [c] rest
  have hstep : (s.between offset).step c = { s with mode := .word offset [c], offset := offset + 1 } := by
    simp [step, react, between, startToken_regular hc]
  refine ⟨offset', ?_⟩
  rw [List.cons_append, run_cons, hstep, hbytes]
  refine run_word rfl ?_ rfl hr
  simp only [List.reverse_append, List.reverse_reverse, List.reverse_cons, List.reverse_nil, List.nil_append,
    List.singleton_append]
  exact ht _ _ _

theorem goes_value {bytes : Bytes} (hne : bytes ≠ []) (hregular : ∀ c ∈ bytes, isRegular c = true)
    {v : Operand α} (hv : ∀ (s : Lexer α) (start : Nat), s.word start bytes = s.deliver start v) {s : Lexer α}
    (hs : s.Awaits) {rest : Bytes} (hr : HeadNot isRegular rest) : s.Goes (bytes ++ rest) (s.take v) rest :=
  goes_word hne hregular (fun mode offset start => (hv _ _).trans (deliver_between hs mode offset start v)) hr

theorem word_number {c : UInt8} {cs : Bytes} {text : List Char} {v : Operand α}
    (htext : c :: cs = asciiChars text) (hascii : ∀ d ∈ text, d.toNat < 0x80) (hc : startsNumber c = true)
    (hv : numberOf text = v) (s : Lexer α) (start : Nat) : s.word start (c :: cs) = s.deliver start v := by
  have hdecode : Utf8.decodeLossy (c :: cs) = text := by
    rw [htext]
    exact Utf8.decodeLossy_ascii hascii
  simp only [word, hdecode, hc, if_true, hv]

/-- A numeral is taken as the number that it is. -/
theorem goes_number {negative : Bool} {sgn ds tail : List Char} {v : Operand α} (hs : SignText negative sgn)
    (hd : ∀ c ∈ ds, c.isDigit = true) (ht : ∀ c ∈ tail, c = '.' ∨ c.isDigit = true)
    (hhead : ds = [] → tail.head? = some '.') (hv : numberOf (sgn ++ ds ++ tail) = v) {s : Lexer α}
    (h : s.Awaits) {rest : Bytes} (hr : HeadNot isRegular rest) :
    s.Goes (asciiChars (sgn ++ ds ++ tail) ++ rest) (s.take v) rest := by
  obtain ⟨c, cs, heq, hc⟩ := startsNumber_head hs hd hhead
  have hchars := numeral_chars hs hd ht
  have hregular : ∀ d ∈ c :: cs, isRegular d = true := by
    intro d hd
    rw [← heq] at hd
    obtain ⟨e, he, rfl⟩ := List.mem_map.mp hd
    exact (hchars e he).2
  rw [heq]
  exact goes_value (List.cons_ne_nil c cs) hregular
    (word_number heq.symm (fun d hd => (hchars d hd).1) hc hv) h hr

theorem numberOf_int {negative : Bool} {sgn ds : List Char} {n : Int} (hs : SignText negative sgn)
    (hd : ∀ c ∈ ds, c.isDigit = true) (hne : ds ≠ [])
    (hn : n = if negative then -(Decimal.natOfDigits ds : Int) else Decimal.natOfDigits ds)
    (hw : inWordRange n = true) : numberOf (α := α) (sgn ++ ds) = .int n := by
  have hpoint : (sgn ++ ds).contains '.' = false := by
    simp only [List.contains_eq_mem, decide_eq_false_iff_not, List.mem_append, not_or]
    exact ⟨by cases hs <;> decide, fun hmem => absurd (hd '.' hmem) (by decide)⟩
  simp only [numberOf, hpoint, Decimal.parseInt?_digits hs hd hne, ← hn, hw, Bool.false_eq_true, if_false, if_true]

theorem numberOf_real {negative : Bool} {sgn whole fraction : List Char} (hs : SignText negative sgn)
    (hw : ∀ c ∈ whole, c.isDigit = true) (hf : ∀ c ∈ fraction, c.isDigit = true)
    (hne : whole ++ fraction ≠ []) :
    numberOf (α := α) (sgn ++ whole ++ '.' :: fraction) = .real (Scalar.ofDecimal
      ⟨negative, Decimal.natOfDigits (whole ++ fraction), -(fraction.length : Int)⟩) := by
  have hpoint : (sgn ++ whole ++ '.' :: fraction).contains '.' = true := by simp
  simp only [numberOf, hpoint, Decimal.parse?_point hs hw hf hne, if_true]

omit [Scalar α] in
/-- The escapes in the text of a name are replaced by the bytes that they stand for. -/
theorem unescapeName_text {n w : Bytes} (h : NameText n w) : unescapeName w = n := by
  induction h with
  | nil => rfl
  | @byte c n w hc hne h ih =>
    have hnone : ∀ a b, escapedByte? c a b = none := fun a b => by simp [escapedByte?, hne]
    rcases w with _ | ⟨a, _ | ⟨b, w⟩⟩
    · simpa [unescapeName] using ih
    · simpa [unescapeName] using ih
    · rw [unescapeName, hnone, ih]
  | @escape a b x y n w ha hb _ ih =>
    have he : escapedByte? 0x23 a b = some (x * 16 + y) := by simp [escapedByte?, ha, hb]
    rw [unescapeName, he, ih]

theorem run_name_bytes {bs : Bytes} (hbs : ∀ c ∈ bs, isRegular c = true) (s : Lexer α) (start offset : Nat)
    (before rest : Bytes) : ∃ offset',
      { s with mode := .name start before, offset := offset }.run (bs ++ rest) =
        { s with mode := .name start (bs.reverse ++ before), offset := offset' }.run rest := by
  induction bs generalizing before offset with
  | nil => exact ⟨offset, rfl⟩
  | cons c bs ih =>
    obtain ⟨offset', h⟩ := ih (fun d hd => hbs d (by simp [hd])) (offset + 1) (c :: before)
    refine ⟨offset', ?_⟩
    have hstep : Lexer.step { s with mode := .name start before, offset := offset } c =
        { s with mode := .name start (c :: before), offset := offset + 1 } := by
      simp [step, react, hbs c (by simp)]
    rw [List.cons_append, run_cons, hstep, h]
    simp

/-- A name ends in front of what is no part of it. -/
theorem run_name {s t : Lexer α} {start : Nat} {bytes rest : Bytes} (hs : s.mode = .name start bytes)
    (ht : s.deliver start (.name (unescapeName bytes.reverse)) = t) (hm : t.mode = .between)
    (hr : HeadNot isRegular rest) : s.run rest = t.run rest := by
  cases rest with
  | nil => simp only [run, read, List.foldl_nil, finish, hs, ht, hm]
  | cons c rest =>
    have hc : isRegular c = false := hr c rfl
    simp only [run_cons, step, react, hs, hm, hc, ht, Bool.false_eq_true, if_false]

/-- A name is taken, as a value or as a key. -/
theorem goes_name {n w : Bytes} (h : NameText n w) {s t : Lexer α} {rest : Bytes} (hr : HeadNot isRegular rest)
    (ht : ∀ mode offset start, { s with mode := mode, offset := offset }.deliver start (.name n) = t.between offset) :
    s.Goes (0x2F :: (w ++ rest)) t rest := by
  intro offset
  obtain ⟨offset', hbytes⟩ := run_name_bytes (regular_nameText h) s offset (offset + 1) [] rest
  have hstep : (s.between offset).step 0x2F = { s with mode := .name offset [], offset := offset + 1 } := rfl
  refine ⟨offset', ?_⟩
  rw [run_cons, hstep, hbytes]
  refine run_name rfl ?_ rfl hr
  rw [List.append_nil, List.reverse_reverse, unescapeName_text h]
  exact ht _ _ _

/-- A literal string that the strict reader takes, however deep its parentheses are nested, is taken here. -/
theorem leads_literal {limit : Nat} {bs str rest : Bytes} {l : Literal} (h : l.read? limit bs = some (str, rest))
    {s : Lexer α} (hs : s.Awaits) (start offset : Nat) :
    { s with mode := .literal start l, offset := offset }.Leads bs (s.take (.string str)) rest := by
  induction bs generalizing l offset with
  | nil => cases h
  | cons c bs ih =>
    rw [Literal.read?] at h
    cases hn : l.next c with
    | inl l' =>
      simp only [hn] at h
      split at h
      · cases h
      · have hstep : Lexer.step { s with mode := .literal start l, offset := offset } c =
            { s with mode := .literal start l', offset := offset + 1 } := by
          simp only [step, react, hn]
        exact Leads.step (hstep ▸ ih h (offset + 1))
    | inr done =>
      simp only [hn, Option.some.injEq, Prod.mk.injEq] at h
      obtain ⟨rfl, rfl⟩ := h
      refine ⟨offset + 1, ?_⟩
      simp only [run_cons, step, react, hn, deliver_between hs]
      rfl

theorem leads_hex {ds : List UInt8} {w : Bytes} (h : HexText ds w) {s : Lexer α} (hs : s.Awaits)
    (start offset : Nat) (before : List UInt8) (rest : Bytes) :
    { s with mode := .hex start before, offset := offset }.Leads (w ++ 0x3E :: rest)
      (s.take (.string (pairNibbles (before.reverse ++ ds)))) rest := by
  induction h generalizing before offset with
  | nil =>
    refine ⟨offset + 1, ?_⟩
    simp only [List.nil_append, List.append_nil, run_cons, step, react, hexByte, beq_self_eq_true, if_true,
      deliver_between hs]
    rfl
  | @digit c d ds w hc _ ih =>
    have hstep : Lexer.step { s with mode := .hex start before, offset := offset } c =
        { s with mode := .hex start (d :: before), offset := offset + 1 } := by
      simp only [step, react, hexByte, ne_of_hexValue? hc, hc, Bool.false_eq_true, if_false]
    have hnext := ih (offset + 1) (d :: before)
    rw [List.reverse_cons, List.append_assoc] at hnext
    exact Leads.step (hstep ▸ hnext)
  | @white c ds w hc _ ih =>
    obtain ⟨hnone, hne⟩ := hexValue?_white hc
    have hstep : Lexer.step { s with mode := .hex start before, offset := offset } c =
        { s with mode := .hex start before, offset := offset + 1 } := by
      simp only [step, react, hexByte, hne, hnone, Bool.false_eq_true, if_false]
    exact Leads.step (hstep ▸ ih (offset + 1) before)

end Tokens

section Values

open Spelling

/-- The operand with its reals in double precision. -/
abbrev wide : Operand Decimal → Operand α := Operand.mapReals Scalar.ofDecimal

/-- What the recovering reader makes of the text of a part: it takes the value, or adds to the array or the
dictionary that is open. -/
def TakenFrom (α : Type) [Scalar α] (w : Bytes) : Part → Prop
  | .value v => ∀ (s : Lexer α) (rest : Bytes), s.Awaits → (closesItself v = false → HeadNot isRegular rest) →
      s.Goes (w ++ rest) (s.take (wide v)) rest
  | .items vs => ∀ (s : Lexer α) (start : Nat) (acc : List (Operand α)) (rest : Bytes), HeadNot isRegular rest →
      Goes { s with nesting := .array start acc :: s.nesting } (w ++ rest)
        { s with nesting := .array start ((Operand.mapItems Scalar.ofDecimal vs).reverse ++ acc) :: s.nesting } rest
  | .entries es => ∀ (s : Lexer α) (start : Nat) (acc : List (Bytes × Operand α)) (rest : Bytes),
      HeadNot isRegular rest →
      Goes { s with nesting := .dict start acc none :: s.nesting } (w ++ rest)
        { s with nesting := .dict start ((Operand.mapEntries Scalar.ofDecimal es).reverse ++ acc) none :: s.nesting }
        rest

theorem goes_closeArray {s : Lexer α} (hs : s.Awaits) (start : Nat) (items : List (Operand α)) (rest : Bytes) :
    Goes { s with nesting := .array start items :: s.nesting } (0x5D :: rest)
      (s.take (.array items.reverse)) rest := by
  intro offset
  refine ⟨offset + 1, ?_⟩
  have hclose : react (between { s with nesting := .array start items :: s.nesting } offset) 0x5D =
      { s with mode := .between, offset := offset }.deliver start (.array items.reverse) := rfl
  simp only [run_cons, step, hclose, deliver_between hs]
  rfl

theorem goes_closeDict {s : Lexer α} (hs : s.Awaits) (start : Nat) (entries : List (Bytes × Operand α))
    (rest : Bytes) : Goes { s with nesting := .dict start entries none :: s.nesting } (0x3E :: 0x3E :: rest)
      (s.take (.dict entries.reverse)) rest := by
  intro offset
  refine ⟨offset + 1 + 1, ?_⟩
  let opened := step (between { s with nesting := .dict start entries none :: s.nesting } offset) 0x3E
  have hclose : opened.react 0x3E =
      { s with mode := .greater offset, offset := offset + 1 }.deliver start (.dict entries.reverse) := rfl
  change (opened.step 0x3E).run rest = _
  simp only [step, hclose, deliver_between hs]
  rfl

/-- A hexadecimal string begins like a dictionary, but its second byte is no angle bracket. -/
theorem goes_hex {ds : List UInt8} {w : Bytes} (h : HexText ds w) {s : Lexer α} (hs : s.Awaits) (rest : Bytes) :
    s.Goes (0x3C :: (w ++ 0x3E :: rest)) (s.take (.string (pairNibbles ds))) rest := by
  intro offset
  have hsecond : ∃ c cs, w ++ 0x3E :: rest = c :: cs ∧ c ≠ 0x3C := by
    cases h with
    | nil => exact ⟨0x3E, rest, rfl, by decide⟩
    | @digit c _ _ w hc => exact ⟨c, _, rfl, by rintro rfl; cases hc⟩
    | @white c _ w hc => exact ⟨c, _, rfl, by rintro rfl; cases hc⟩
  obtain ⟨c, cs, heq, hc⟩ := hsecond
  have hless : step { s with mode := .less offset, offset := offset + 1 } c =
      step { s with mode := .hex offset [], offset := offset + 1 } c := by
    simp only [step, react, beq_eq_false_iff_ne.mpr hc, hexByte, Bool.false_eq_true, if_false]
    cases c == 0x3E with
    | true => rfl
    | false => cases hexValue? c <;> rfl
  obtain ⟨offset', hin⟩ := leads_hex h hs offset (offset + 1) [] rest
  refine ⟨offset', Eq.trans ?_ hin⟩
  have hstart : (s.between offset).step 0x3C = { s with mode := .less offset, offset := offset + 1 } := rfl
  rw [run_cons, hstart, heq, run_cons, hless]
  rfl

/-- Every part is taken from each text that it is printed as. -/
theorem takenFrom_printed {part : Part} {w : Bytes} (h : Printed Parted part w) : TakenFrom α w part := by
  induction h with
  | null => exact fun s rest hs hr => goes_value (by decide) (by decide) (fun _ _ => rfl) hs (hr rfl)
  | trueWord => exact fun s rest hs hr => goes_value (by decide) (by decide) (fun _ _ => rfl) hs (hr rfl)
  | falseWord => exact fun s rest hs hr => goes_value (by decide) (by decide) (fun _ _ => rfl) hs (hr rfl)
  | @int _ sgn ds n hs hd hne hn hw =>
    intro s rest hawaits hr
    have hnumber : numberOf (α := α) (sgn ++ ds ++ []) = .int n := by
      rw [List.append_nil, numberOf_int hs hd hne hn hw]
    have htaken := goes_number hs hd (by simp) (fun h => absurd h hne) hnumber hawaits (hr rfl)
    rwa [List.append_nil] at htaken
  | real hs hw hf hne =>
    intro s rest hawaits hr
    have htail : ∀ c ∈ '.' :: _, c = '.' ∨ c.isDigit = true := List.forall_mem_cons.mpr
      ⟨.inl rfl, fun c hc => .inr (hf c hc)⟩
    exact goes_number hs hw htail (fun _ => rfl) (numberOf_real hs hw hf hne) hawaits (hr rfl)
  | @name n w hn =>
    intro s rest hawaits hr
    exact goes_name hn (hr rfl) fun mode offset start => deliver_between hawaits mode offset start (.name n)
  | @literal _ s w hl =>
    intro s rest hawaits hr offset
    have hin : 0x28 :: (w ++ [0x29]) ++ rest = 0x28 :: (w ++ 0x29 :: rest) := by simp
    rw [hin]
    exact leads_literal (read?_literal hl rest) hawaits offset (offset + 1)
  | @hex ds w hx =>
    intro s rest hawaits hr
    have hin : 0x3C :: (w ++ [0x3E]) ++ rest = 0x3C :: (w ++ 0x3E :: rest) := by simp
    rw [hin]
    exact goes_hex hx hawaits rest
  | @array vs g w hg hvs ih =>
    intro s rest hawaits hr offset
    have hin : 0x5B :: (g ++ (w ++ [0x5D])) ++ rest = 0x5B :: (g ++ (w ++ 0x5D :: rest)) := by simp
    have hitems := ih s offset [] (0x5D :: rest) (headNot_cons rfl rest)
    have hclose := goes_closeArray hawaits offset (Operand.mapItems Scalar.ofDecimal vs).reverse rest
    rw [List.append_nil] at hitems
    rw [List.reverse_reverse] at hclose
    rw [hin]
    exact ((goes_gap hg _).trans (hitems.trans hclose)) (offset + 1)
  | @dict es g w hg hes ih =>
    intro s rest hawaits hr offset
    have hin : 0x3C :: 0x3C :: (g ++ (w ++ [0x3E, 0x3E])) ++ rest =
        0x3C :: 0x3C :: (g ++ (w ++ 0x3E :: 0x3E :: rest)) := by simp
    have hentries := ih s offset [] (0x3E :: 0x3E :: rest) (headNot_cons rfl _)
    have hclose := goes_closeDict hawaits offset (Operand.mapEntries Scalar.ofDecimal es).reverse rest
    rw [List.append_nil] at hentries
    rw [List.reverse_reverse] at hclose
    rw [hin]
    exact ((goes_gap hg _).trans (hentries.trans hclose)) (offset + 1 + 1)
  | noItems => exact fun s start acc rest _ => .refl _ rest
  | @item v vs w g t hv hg hvs ihv ih =>
    intro s start acc rest hr
    have hend : closesItself v = false → HeadNot isRegular (g ++ (t ++ rest)) :=
      fun hopen => hg.headNot (hv.endsOpen hopen) fun _ => hr
    have hvalue := ihv { s with nesting := .array start acc :: s.nesting } _ (by simp [Awaits]) hend
    have hitems := ih s start (wide v :: acc) rest hr
    rw [List.append_assoc, List.append_assoc]
    refine hvalue.trans ((goes_gap hg.gap _).trans ?_)
    simp only [Operand.mapItems, List.reverse_cons, List.append_assoc, List.singleton_append]
    exact hitems
  | noEntries => exact fun s start acc rest _ => .refl _ rest
  | @entry k v es n g w g' t hk hg hv hg' hes ihv ih =>
    intro s start acc rest hr
    have hname : Printed Parted (.value (.name k)) (0x2F :: n) := .name hk
    have hkeyEnd : HeadNot isRegular (g ++ (w ++ (g' ++ (t ++ rest)))) :=
      hg.headNot (hname.endsOpen rfl) fun hnil => absurd hnil hv.ne_nil
    have hend : closesItself v = false → HeadNot isRegular (g' ++ (t ++ rest)) :=
      fun hopen => hg'.headNot (hv.endsOpen hopen) fun _ => hr
    have hkey : Goes { s with nesting := .dict start acc none :: s.nesting } _
        { s with nesting := .dict start acc (some k) :: s.nesting } _ :=
      goes_name hk hkeyEnd fun _ _ _ => rfl
    have hvalue := ihv { s with nesting := .dict start acc (some k) :: s.nesting } _ (by simp [Awaits]) hend
    have hentries := ih s start ((k, wide v) :: acc) rest hr
    simp only [List.cons_append, List.append_assoc]
    refine hkey.trans ((goes_gap hg.gap _).trans (hvalue.trans ((goes_gap hg'.gap _).trans ?_)))
    simp only [Operand.mapEntries, List.reverse_cons, List.append_assoc, List.singleton_append]
    exact hentries

end Values

section Operations

open Spelling

theorem word_operator {word : String} (h : IsOperator word) {s : Lexer α} (hn : s.nesting = [])
    (hi : s.image = false) (start : Nat) : s.word start (ascii word) =
      { s with mode := .between, operands := [], operations := ⟨word, s.operands.reverse⟩ :: s.operations } := by
  have hascii : ∀ c ∈ word.toList, c.toNat < 0x80 := fun c hc => (h.regular c hc).1
  have hdecode : String.ofList (Utf8.decodeLossy (ascii word)) = word := by
    rw [ascii_eq, asciiChars, Utf8.decodeLossy_ascii hascii, String.ofList_toList]
  have hne : ∀ key ∈ ["null", "true", "false", "BI"], (ascii word == ascii key) = false := by
    intro key hkey
    have hkeyAscii : ∀ c ∈ key.toList, c.toNat < 0x80 := by
      revert key
      decide
    simp only [beq_eq_false_iff_ne, ne_eq]
    intro heq
    have hchars := congrArg Latin1.decode heq
    rw [ascii_eq, ascii_eq, decode_asciiChars hascii, decode_asciiChars hkeyAscii] at hchars
    exact h.keyword (String.toList_inj.mp hchars ▸ hkey)
  have hword : (word == "BI") = false := beq_eq_false_iff_ne.mpr fun he => h.keyword (by simp [he])
  cases hcs : word.toList with
  | nil => exact absurd hcs h.nonempty
  | cons c cs =>
    have hnumber := h.number c (by simp [hcs])
    have hbytes : ascii word = UInt8.ofNat c.toNat :: asciiChars cs := by
      rw [ascii_eq, hcs]
      rfl
    have hnull := hne "null" (by simp)
    have htrue := hne "true" (by simp)
    have hfalse := hne "false" (by simp)
    rw [hbytes] at hdecode hnull htrue hfalse ⊢
    simp [Lexer.word, hnumber, hnull, htrue, hfalse, hdecode, operator, hn, hi, hword]

theorem goes_operator {word : String} (h : IsOperator word) (vs : List (Operand α)) (ops : List (Operation α))
    {rest : Bytes} (hr : HeadNot isRegular rest) :
    Goes ⟨0, .between, [], vs, ops, false⟩ (ascii word ++ rest)
      ⟨0, .between, [], [], ⟨word, vs.reverse⟩ :: ops, false⟩ rest := by
  have hregular : ∀ c ∈ ascii word, isRegular c = true := by
    intro c hc
    obtain ⟨d, hd, rfl⟩ := List.mem_map.mp hc
    exact (h.regular d hd).2
  refine goes_word ?_ hregular (fun mode offset start => word_operator h rfl rfl start) hr
  simpa [ascii] using h.nonempty

/-- An operation is read with all its operands. -/
theorem goes_operation {word : String} {vs : List (Operand Decimal)} {w : Bytes}
    (h : OperationPrinted Parted word vs w) (acc : List (Operand α)) (ops : List (Operation α))
    {rest : Bytes} (hr : HeadNot isRegular rest) :
    Goes ⟨0, .between, [], acc, ops, false⟩ (w ++ rest)
      ⟨0, .between, [], [], ⟨word, acc.reverse ++ vs.map wide⟩ :: ops, false⟩ rest := by
  induction h generalizing acc with
  | operator hword =>
    rw [List.map_nil, List.append_nil]
    exact goes_operator hword acc ops hr
  | @operand v vs w g t hv hg hvs ih =>
    have hend : closesItself v = false → HeadNot isRegular (g ++ (t ++ rest)) :=
      fun hopen => hg.headNot (hv.endsOpen hopen) fun hnil => absurd hnil hvs.ne_nil
    have hvalue := takenFrom_printed (α := α) hv ⟨0, .between, [], acc, ops, false⟩ _ (by simp [Awaits]) hend
    have hothers := ih (wide v :: acc)
    rw [List.reverse_cons, List.append_assoc, List.singleton_append] at hothers
    rw [List.append_assoc, List.append_assoc]
    exact hvalue.trans ((goes_gap hg.gap _).trans hothers)

/-- A row of operations is read to its end. -/
theorem goes_operations {ops : List (Operation Decimal)} {w : Bytes} (h : OperationsPrinted Parted ops w)
    (acc : List (Operation α)) :
    Goes ⟨0, .between, [], [], acc, false⟩ w
      ⟨0, .between, [], [], (ops.map (Operation.mapReals Scalar.ofDecimal)).reverse ++ acc, false⟩ [] := by
  induction h generalizing acc with
  | nil => exact .refl _ []
  | @cons op ops w g t hop hg _ ih =>
    have hstop : HeadNot isRegular (g ++ (t ++ [])) := hg.headNot (.inr hop.endsOpen) fun _ => headNot_nil
    have hend : HeadNot isRegular (g ++ t) := by rwa [List.append_nil] at hstop
    have hothers := ih (op.mapReals Scalar.ofDecimal :: acc)
    rw [List.map_cons, List.reverse_cons, List.append_assoc, List.singleton_append]
    exact (goes_operation hop [] acc hend).trans ((goes_gap hg.gap _).trans hothers)

/-- A program is read to its end, and no fault is found in it. -/
theorem decoded_printed {ops : List (Operation Decimal)} {w : Bytes} (h : ProgramPrinted Parted ops w) :
    lexOperations (α := α) w = ⟨ops.map (Operation.mapReals Scalar.ofDecimal), none⟩ := by
  obtain ⟨g, w, hg, hops, rfl⟩ := h
  obtain ⟨offset, hrun⟩ := ((goes_gap hg w).trans (goes_operations (α := α) hops [])) 0
  have hend : lexOperations (g ++ w) =
      (Lexer.run ((⟨0, .between, [], [], [], false⟩ : Lexer α).between 0) (g ++ w)).decoded := rfl
  rw [hend, hrun]
  simp [run, read, finish, closeNesting, decoded, between]

/-- Every program in the free layout is read to its end and without a fault. -/
theorem lexOperations_text {parentheses : Nat} {ops : List (Operation Decimal)} {w : Bytes}
    (h : ProgramText (.free parentheses) ops w) :
    lexOperations (α := α) w = ⟨ops.map (Operation.mapReals Scalar.ofDecimal), none⟩ :=
  decoded_printed h.printed

end Operations

end Lexer

open Spelling

/-- Every printing of a program is undone, whatever stands between its tokens, as long as an empty name is kept
apart from a word behind it: exactly the operations printed are read, and no fault is found. -/
theorem lexOperations_printed {α : Type} [Scalar α] {ops : List (Operation Decimal)} {w : Bytes}
    (h : ProgramPrinted Parted ops w) :
    lexOperations (α := α) w = ⟨ops.map (Operation.mapReals Scalar.ofDecimal), none⟩ :=
  Lexer.decoded_printed h

/-- A comment ended by a carriage return, strings of both kinds, an escape in a name, a key that is repeated, and
an empty name, with next to nothing between them. -/
def tightText : Bytes :=
  ascii "%[" ++ [13] ++ ascii "[<4a>(" ++ [0x5C] ++ ascii "))/A#20]<</K<41>/K[]>>/ true DP% end" ++ [10] ++ ascii "Q"

def tightOperations : List (Operation Decimal) :=
  [⟨"DP", [.array [.string [0x4A], .string [0x29], .name [0x41, 0x20]],
      .dict [([0x4B], .string [0x41]), ([0x4B], .array [])], .name [], .bool true]⟩, ⟨"Q", []⟩]

theorem tightText_printed : ProgramPrinted Parted tightOperations tightText := by
  have hnone : ∀ {w t : Bytes}, w ≠ [0x2F] → (∃ c ∈ w.getLast?, isDelimiter c = true) → Parted w [] t :=
    fun hw hlast => ⟨⟨.nil, fun _ => .inl hlast⟩, fun h => absurd h hw⟩
  have hstop : ∀ {w g t : Bytes}, Gap g → HeadNot isRegular (g ++ t) → Parted w g t := Parted.of_headNot
  have hspace : Gap [0x20] := .white rfl .nil
  have hlead : Gap (0x25 :: ([0x5B] ++ 13 :: [])) := .comment (by decide) rfl .nil
  have hend : Gap (0x25 :: (ascii " end" ++ 10 :: [])) := .comment (by decide) rfl .nil
  have hfirst : Printed Parted (.value (.string [0x4A])) _ :=
    .hex (.digit (c := 0x34) (d := 4) rfl (.digit (c := 0x61) (d := 10) rfl .nil))
  have hescaped : LiteralText 0 [0x29] _ := .escape (c := 0x29) rfl rfl .nil
  have hparenthesis : Printed Parted (.value (.string [0x29])) _ := .literal hescaped
  have hname : Printed Parted (.value (.name [0x41, 0x20])) _ :=
    .name (.byte rfl (by decide) (.escape (a := 0x32) (b := 0x30) (x := 2) (y := 0) rfl rfl .nil))
  have harray : Printed Parted (.value (.array [.string [0x4A], .string [0x29], .name [0x41, 0x20]])) _ :=
    .array .nil (.item hfirst (hnone (by decide) ⟨0x3E, rfl, rfl⟩) (.item hparenthesis
      (hnone (by decide) ⟨0x29, rfl, rfl⟩) (.item hname (hstop .nil headNot_nil) .noItems)))
  have hvalue : Printed Parted (.value (.string [0x41])) _ :=
    .hex (.digit (c := 0x34) (d := 4) rfl (.digit (c := 0x31) (d := 1) rfl .nil))
  have hempty : Printed Parted (.value (.array [])) _ := .array .nil .noItems
  have hkey : NameText [0x4B] [0x4B] := .byte rfl (by decide) .nil
  have hdict : Printed Parted (.value (.dict [([0x4B], .string [0x41]), ([0x4B], .array [])])) _ :=
    .dict .nil (.entry hkey (hstop .nil (headNot_cons rfl _)) hvalue (hnone (by decide) ⟨0x3E, rfl, rfl⟩)
      (.entry hkey (hstop .nil (headNot_cons rfl _)) hempty (hstop .nil headNot_nil) .noEntries))
  have hnameless : Printed Parted (.value (.name [])) _ := .name .nil
  have hmark : OperationPrinted Parted "DP" _ _ :=
    .operand harray (hnone (by decide) ⟨0x5D, rfl, rfl⟩) (.operand hdict (hnone (by decide) ⟨0x3E, rfl, rfl⟩)
      (.operand hnameless (hstop hspace (headNot_cons rfl _)) (.operand .trueWord (hstop hspace (headNot_cons rfl _))
        (.operator (IsPlainOperator.isOperator (by decide : IsPlainOperator "DP"))))))
  have hrestore : OperationPrinted Parted "Q" _ _ :=
    .operator (IsPlainOperator.isOperator (by decide : IsPlainOperator "Q"))
  exact ⟨_, _, hlead, .cons hmark (hstop hend (headNot_cons rfl _)) (.cons hrestore (hstop .nil headNot_nil) .nil), rfl⟩

theorem lexOperations_tightText : ProgramPrinted Parted tightOperations tightText ∧
    lexOperations (α := Exact .plain) tightText = ⟨tightOperations.map (Operation.mapReals Scalar.ofDecimal), none⟩ :=
  ⟨tightText_printed, lexOperations_printed tightText_printed⟩

/-- The slash of an empty name takes what stands right behind it for the name, so that of a name and a number
only a name is left. -/
theorem lexOperations_slash :
    ProgramPrinted Spaced [⟨"w", [.name [], .int 5]⟩] (ascii "/5 w") ∧
      lexOperations (α := Exact .plain) (ascii "/5 w") = ⟨[⟨"w", [.name [0x35]]⟩], none⟩ := by
  have hslash : Spaced [0x2F] [] (ascii "5 w") := ⟨.nil, fun _ => .inl ⟨0x2F, rfl, rfl⟩⟩
  have hspace : Spaced (ascii "5") [0x20] (ascii "w") := ⟨.white rfl .nil, fun h => by cases h⟩
  have hlast : Spaced (ascii "/5 w") [] [] := ⟨.nil, fun _ => .inr headNot_nil⟩
  have hnumber : Printed Spaced (.value (.int 5)) (ascii "5") :=
    @Printed.int _ false [] ['5'] 5 .plain (by decide) (by decide) rfl rfl
  have hnameless : Printed Spaced (.value (.name [])) [0x2F] := .name .nil
  have hoperator : OperationPrinted Spaced "w" [] (ascii "w") :=
    .operator (IsPlainOperator.isOperator (by decide : IsPlainOperator "w"))
  have hwidth : OperationPrinted Spaced "w" [.name [], .int 5] (ascii "/5 w") :=
    .operand hnameless hslash (.operand hnumber hspace hoperator)
  exact ⟨⟨[], _, .nil, .cons hwidth hlast .nil, rfl⟩, rfl⟩

end Marginalia
