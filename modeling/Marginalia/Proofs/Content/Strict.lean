import Marginalia.Proofs.Content.Joining
import Marginalia.Proofs.Content.Spelling

/-!
The strict reader follows every program in the plain layout to its end.
-/

namespace Marginalia

open Syntax ObjectReader

namespace Spelling

section Blanks

theorem skipBlank_of_head {c : UInt8} (hw : isWhite c = false) (hc : c ≠ 0x25) (bs : Bytes) :
    skipBlank (c :: bs) = c :: bs := by
  simp [skipBlank, skipBlankFrom, hw, hc]

theorem skipBlankFrom_comment {text : Bytes} {e : UInt8} (ht : ∀ c ∈ text, isLineEnd c = false)
    (he : isLineEnd e = true) (pending rest : Bytes) :
    skipBlankFrom (some pending) (text ++ e :: rest) = skipBlank rest := by
  induction text with
  | nil => simp [skipBlankFrom, he, skipBlank]
  | cons c text ih =>
    rw [List.cons_append, skipBlankFrom, ht c (by simp)]
    exact ih fun d hd => ht d (by simp [hd])

theorem skipBlank_gap {g : Bytes} (h : Gap g) (rest : Bytes) : skipBlank (g ++ rest) = skipBlank rest := by
  induction h with
  | nil => rfl
  | white hc _ ih =>
    rw [← ih]
    simp [skipBlank, skipBlankFrom, hc]
  | @comment text g e ht he _ ih =>
    have hstart : skipBlank (0x25 :: (text ++ e :: g) ++ rest) =
        skipBlankFrom (some (0x25 :: (text ++ e :: (g ++ rest)))) (text ++ e :: (g ++ rest)) := by
      rw [List.cons_append, List.append_assoc, List.cons_append]
      rfl
    rw [hstart, skipBlankFrom_comment ht he, ih]

/-- The gap in front of a value is passed over. -/
theorem skipBlank_value {parentheses : Nat} {v : Operand Decimal} {g w : Bytes} (hg : Gap g)
    (h : Text parentheses (.value v) w) (rest : Bytes) : skipBlank (g ++ (w ++ rest)) = w ++ rest := by
  obtain ⟨c, cs, rfl, hc⟩ := h.head
  rw [skipBlank_gap hg]
  exact skipBlank_of_head (startsValue_white hc).1 (beq_eq_false_iff_ne.mp (startsValue_ne hc rfl)) _

theorem skipBlank_items {parentheses : Nat} {vs : List (Operand Decimal)} {g t : Bytes} (hg : Gap g)
    (h : Text parentheses (.items vs) t) (rest : Bytes) :
    skipBlank (g ++ (t ++ 0x5D :: rest)) = t ++ 0x5D :: rest := by
  cases h with
  | noItems => exact (skipBlank_gap hg _).trans (skipBlank_of_head rfl (by decide) rest)
  | item hv _ _ _ =>
    rw [List.append_assoc]
    exact skipBlank_value hg hv _

theorem skipBlank_entries {parentheses : Nat} {es : List (Bytes × Operand Decimal)} {g t : Bytes}
    (hg : Gap g) (h : Text parentheses (.entries es) t) (rest : Bytes) :
    skipBlank (g ++ (t ++ 0x3E :: rest)) = t ++ 0x3E :: rest := by
  cases h with
  | noEntries => exact (skipBlank_gap hg _).trans (skipBlank_of_head rfl (by decide) rest)
  | entry => exact (skipBlank_gap hg _).trans (skipBlank_of_head rfl (by decide) _)

end Blanks

section Tokens

theorem nameBytes_text {n w : Bytes} (h : NameText n w) {rest : Bytes} (hr : HeadNot isRegular rest) :
    nameBytes (w ++ rest) = (n, rest) := by
  induction h with
  | nil =>
    cases rest with
    | nil => rfl
    | cons c rest => exact nameBytes_stop (hr c rfl) rest
  | byte hc hne _ ih => rw [List.cons_append, nameBytes_regular hc hne, ih]
  | @escape a b x y n w ha hb _ ih =>
    have he : escapedByte? 0x23 a b = some (x * 16 + y) := by simp [escapedByte?, ha, hb]
    have hregular : isRegular 0x23 = true := rfl
    simp only [List.cons_append, nameBytes, hregular, he, ih, Bool.not_true, Bool.false_eq_true, if_false,
      beq_self_eq_true, if_true]

theorem read?_next {limit : Nat} {l l' : Literal} {c : UInt8} (h : l.next c = .inl l')
    (hdeep : l'.depth ≤ limit) (rest : Bytes) : l.read? limit (c :: rest) = l'.read? limit rest := by
  rw [Literal.read?, h]
  exact if_neg (Nat.not_lt.mpr hdeep)

/-- An octal escape is over where no further digit can belong to it. -/
theorem read?_octal {limit depth n k : Nat} {bytes : Bytes} {c : UInt8}
    (h : k = 3 ∨ (octalValue? c).isSome = false) (rest : Bytes) :
    Literal.read? limit ⟨depth, .octal n k, bytes⟩ (c :: rest) =
      Literal.read? limit ⟨depth, .plain, UInt8.ofNat n :: bytes⟩ (c :: rest) := by
  have hnext : Literal.next ⟨depth, .octal n k, bytes⟩ c =
      Literal.next ⟨depth, .plain, UInt8.ofNat n :: bytes⟩ c := by
    simp only [Literal.next, Literal.push]
    cases ho : octalValue? c with
    | none => rfl
    | some d =>
      rcases h with rfl | h
      · rfl
      · rw [ho] at h
        cases h
  simp only [Literal.read?, hnext]

theorem read?_octalDigits {limit depth : Nat} (hdeep : depth ≤ limit) {ds : Bytes} (hpos : ds ≠ [])
    (hlen : ds.length ≤ 3) (hoctal : ∀ c ∈ ds, (octalValue? c).isSome = true) (bytes rest : Bytes) :
    Literal.read? limit ⟨depth, .backslash, bytes⟩ (ds ++ rest) =
      Literal.read? limit ⟨depth, .octal (octalNumber ds) ds.length, bytes⟩ rest := by
  have hnot := Nat.not_lt.mpr hdeep
  have hdigit : ∀ c ∈ ds, ∃ d, octalValue? c = some d := fun c hc => Option.isSome_iff_exists.mp (hoctal c hc)
  match ds with
  | [] => exact absurd rfl hpos
  | [a] =>
    obtain ⟨x, hx⟩ := hdigit a (by simp)
    simp [Literal.read?, Literal.next, octalNumber, hx, hnot]
  | [a, b] =>
    obtain ⟨x, hx⟩ := hdigit a (by simp)
    obtain ⟨y, hy⟩ := hdigit b (by simp)
    simp [Literal.read?, Literal.next, octalNumber, hx, hy, hnot]
  | [a, b, c] =>
    obtain ⟨x, hx⟩ := hdigit a (by simp)
    obtain ⟨y, hy⟩ := hdigit b (by simp)
    obtain ⟨z, hz⟩ := hdigit c (by simp)
    simp [Literal.read?, Literal.next, octalNumber, hx, hy, hz, hnot]
  | _ :: _ :: _ :: _ :: _ => exact absurd hlen (by simp)

theorem read?_backslash {limit depth : Nat} (hdeep : depth ≤ limit) (bytes rest : Bytes) :
    Literal.read? limit ⟨depth, .plain, bytes⟩ (0x5C :: rest) =
      Literal.read? limit ⟨depth, .backslash, bytes⟩ rest :=
  read?_next rfl hdeep rest

/-- A carriage return behind a backslash takes a line feed with it, and nothing else. -/
theorem read?_lineBreak {limit depth : Nat} {bytes : Bytes} {c : UInt8} (h : (c == 10) = false) (rest : Bytes) :
    Literal.read? limit ⟨depth, .lineBreak, bytes⟩ (c :: rest) =
      Literal.read? limit ⟨depth, .plain, bytes⟩ (c :: rest) := by
  have hnext : Literal.next ⟨depth, .lineBreak, bytes⟩ c = Literal.next ⟨depth, .plain, bytes⟩ c := by
    simp [Literal.next, h]
  simp only [Literal.read?, hnext]

/-- Inside a literal string its text is read as the bytes that it stands for. -/
theorem read?_text {nested limit : Nat} {s w : Bytes} (h : LiteralText nested s w) {depth : Nat}
    (hdeep : depth + nested ≤ limit) (bytes rest : Bytes) :
    Literal.read? limit ⟨depth, .plain, bytes⟩ (w ++ 0x29 :: rest) =
      Literal.read? limit ⟨depth, .plain, s.reverse ++ bytes⟩ (0x29 :: rest) := by
  induction h generalizing depth bytes rest with
  | nil => rfl
  | @byte nested c s w hopen hclose hescape _ ih =>
    have hnext : Literal.next ⟨depth, .plain, bytes⟩ c = .inl ⟨depth, .plain, c :: bytes⟩ := by
      simp [Literal.next, Literal.plainByte, Literal.push, hopen, hclose, hescape]
    rw [List.cons_append, read?_next hnext (Nat.le_of_add_right_le hdeep), ih hdeep]
    simp
  | @nested nested inner s v w _ _ ihin ih =>
    have hopen : Literal.next ⟨depth, .plain, bytes⟩ 0x28 = .inl ⟨depth + 1, .plain, 0x28 :: bytes⟩ := rfl
    have hclose : Literal.next ⟨depth + 1, .plain, inner.reverse ++ 0x28 :: bytes⟩ 0x29 =
        .inl ⟨depth, .plain, 0x29 :: (inner.reverse ++ 0x28 :: bytes)⟩ := rfl
    have hinner : depth + 1 + nested ≤ limit := by omega
    rw [List.cons_append, List.append_assoc, List.cons_append,
      read?_next hopen (Nat.le_of_add_right_le hinner), ihin hinner,
      read?_next hclose (Nat.le_of_add_right_le hdeep), ih hdeep]
    simp
  | @escape nested c s w hoctal hline _ ih =>
    simp only [isLineEnd, Bool.or_eq_false_iff, beq_eq_false_iff_ne] at hline
    have hnext : Literal.next ⟨depth, .backslash, bytes⟩ c =
        .inl ⟨depth, .plain, Literal.escaped c :: bytes⟩ := by
      simp [Literal.next, hoctal, hline, Literal.push]
    rw [List.cons_append, List.cons_append, read?_backslash (Nat.le_of_add_right_le hdeep),
      read?_next hnext (Nat.le_of_add_right_le hdeep), ih hdeep]
    simp
  | @octal nested ds s w hpos hlen hoctal hend _ ih =>
    have hover : ∃ c cs, w ++ 0x29 :: rest = c :: cs ∧ (ds.length = 3 ∨ (octalValue? c).isSome = false) := by
      cases w with
      | nil => exact ⟨0x29, rest, rfl, .inr rfl⟩
      | cons c w => exact ⟨c, w ++ 0x29 :: rest, rfl, hend.imp_right fun h => h c rfl⟩
    obtain ⟨c, cs, hrest, hover⟩ := hover
    rw [List.cons_append, List.append_assoc, read?_backslash (Nat.le_of_add_right_le hdeep),
      read?_octalDigits (Nat.le_of_add_right_le hdeep) hpos hlen hoctal, hrest, read?_octal hover, ← hrest,
      ih hdeep]
    simp
  | lineFeed _ ih =>
    have hnext : Literal.next ⟨depth, .backslash, bytes⟩ 10 = .inl ⟨depth, .plain, bytes⟩ := rfl
    rw [List.cons_append, List.cons_append, read?_backslash (Nat.le_of_add_right_le hdeep),
      read?_next hnext (Nat.le_of_add_right_le hdeep), ih hdeep]
  | lineEnd _ ih =>
    have hreturn : Literal.next ⟨depth, .backslash, bytes⟩ 13 = .inl ⟨depth, .lineBreak, bytes⟩ := rfl
    have hfeed : Literal.next ⟨depth, .lineBreak, bytes⟩ 10 = .inl ⟨depth, .plain, bytes⟩ := rfl
    rw [List.cons_append, List.cons_append, List.cons_append, read?_backslash (Nat.le_of_add_right_le hdeep),
      read?_next hreturn (Nat.le_of_add_right_le hdeep), read?_next hfeed (Nat.le_of_add_right_le hdeep),
      ih hdeep]
  | @carriageReturn nested s w hend _ ih =>
    have hreturn : Literal.next ⟨depth, .backslash, bytes⟩ 13 = .inl ⟨depth, .lineBreak, bytes⟩ := rfl
    have hover : ∃ c cs, w ++ 0x29 :: rest = c :: cs ∧ (c == 10) = false := by
      cases w with
      | nil => exact ⟨0x29, rest, rfl, rfl⟩
      | cons c w => exact ⟨c, w ++ 0x29 :: rest, rfl, hend c rfl⟩
    obtain ⟨c, cs, hrest, hover⟩ := hover
    rw [List.cons_append, List.cons_append, read?_backslash (Nat.le_of_add_right_le hdeep),
      read?_next hreturn (Nat.le_of_add_right_le hdeep), hrest, read?_lineBreak hover, ← hrest, ih hdeep]

theorem read?_literal {limit : Nat} {s w : Bytes} (h : LiteralText limit s w) (rest : Bytes) :
    Literal.empty.read? limit (w ++ 0x29 :: rest) = some (s, rest) := by
  have htext := read?_text h (Nat.le_of_eq (Nat.zero_add limit)) [] rest
  exact htext.trans (by simp [Literal.read?, Literal.next, Literal.plainByte])

theorem literal?_text {s w : Bytes} (h : LiteralText maxParentheses s w) (rest : Bytes) :
    literal? (0x28 :: (w ++ [0x29]) ++ rest) = some (s, rest) := by
  rw [List.cons_append, List.append_assoc, List.cons_append, List.nil_append]
  exact read?_literal h rest

theorem hexValue?_white {c : UInt8} (h : isWhite c = true) : hexValue? c = none ∧ (c == 0x3E) = false := by
  have hall : ∀ k : Fin 256, isWhite (UInt8.ofNat k) = true →
      hexValue? (UInt8.ofNat k) = none ∧ (UInt8.ofNat k == 0x3E) = false := by decide +kernel
  simpa using hall ⟨c.toNat, c.toNat_lt⟩ (by simpa using h)

theorem ne_of_hexValue? {c d : UInt8} (h : hexValue? c = some d) : (c == 0x3E) = false := by
  simp only [beq_eq_false_iff_ne, ne_eq]
  rintro rfl
  cases h

theorem hexBody?_text {ds : List UInt8} {w : Bytes} (h : HexText ds w) (before : List UInt8) (rest : Bytes) :
    hexBody? before (w ++ 0x3E :: rest) = some (pairNibbles (before.reverse ++ ds), rest) := by
  induction h generalizing before with
  | nil => simp [hexBody?]
  | digit hc _ ih =>
    simp only [List.cons_append, hexBody?, ne_of_hexValue? hc, hc, Bool.false_eq_true, if_false, ih]
    simp
  | white hc _ ih =>
    obtain ⟨hnone, hne⟩ := hexValue?_white hc
    simp only [List.cons_append, hexBody?, hne, hnone, hc, Bool.false_eq_true, if_false, if_true, ih]

theorem hexString?_text {ds : List UInt8} {w : Bytes} (h : HexText ds w) (rest : Bytes) :
    hexString? (0x3C :: (w ++ [0x3E]) ++ rest) = some (pairNibbles ds, rest) := by
  rw [List.cons_append, List.append_assoc, List.cons_append, List.nil_append, hexString?, hexBody?_text h,
    List.reverse_nil, List.nil_append]

end Tokens

section References

/-- That no reference goes on here behind its first number. -/
def NoReference (bs : Bytes) : Prop :=
  ∀ n r, unsigned? 65536 (skipBlank bs) = some (n, r) → HeadNot (· == 0x52) (skipBlank r)

/-- An unsigned number is read up to the end of its digits; a number with a sign is none. -/
theorem unsigned?_numeral {negative : Bool} {sgn ds : List Char} (hs : SignText negative sgn)
    (hd : ∀ c ∈ ds, c.isDigit = true) {bound n : Nat} {rest r : Bytes} (hr : HeadNot isDigit rest)
    (h : unsigned? bound (asciiChars (sgn ++ ds) ++ rest) = some (n, r)) : r = rest := by
  cases hs with
  | plus | minus =>
    rw [List.cons_append] at h
    exact absurd h (by rw [asciiChars, List.map_cons, List.cons_append, unsigned?_of_head rfl]; simp)
  | plain =>
    rw [List.nil_append, unsigned?, digits_append hd hr] at h
    simp only at h
    split at h
    · cases h
    · exact (Prod.mk.inj (Option.some.inj h)).2.symm

theorem reference?_eq_none {bs : Bytes}
    (h : ∀ n r, unsigned? 4294967296 bs = some (n, r) → NoReference r) : reference? bs = none := by
  cases hr : reference? bs with
  | none => rfl
  | some found =>
    simp only [reference?, Option.bind_eq_bind, Option.bind_eq_some_iff] at hr
    obtain ⟨⟨n, r⟩, hn, ⟨g, r'⟩, hg, r'', hletter, -⟩ := hr
    have hno := h n r hn g r' hg
    rw [expect?_of_head hno] at hletter
    cases hletter

/-- Where an unsigned number is read from the text of a value, the value is that number, or goes on with a
point. -/
theorem Text.unsigned? {parentheses : Nat} {v : Operand Decimal} {w : Bytes}
    (h : Text parentheses (.value v) w) {bound n : Nat} {rest r : Bytes} (hr : HeadNot isRegular rest)
    (hn : ObjectReader.unsigned? bound (w ++ rest) = some (n, r)) : r = rest ∨ r.head? = some 0x2E := by
  have hnone : ∀ {c : UInt8} {bs : Bytes}, isDigit c = false →
      ObjectReader.unsigned? bound (c :: bs) ≠ some (n, r) := by
    intro c bs hc he
    rw [unsigned?_of_head hc] at he
    cases he
  cases h with
  | null | trueWord | falseWord | name | literal | hex | array | dict => exact absurd hn (hnone rfl)
  | int hs hd _ _ _ => exact .inl (unsigned?_numeral hs hd (headNot_of_imp isRegular_of_isDigit hr) hn)
  | @real _ sgn whole fraction hs hw _ _ =>
    have hsplit : asciiChars (sgn ++ whole ++ '.' :: fraction) ++ rest =
        asciiChars (sgn ++ whole) ++ (0x2E :: (asciiChars fraction ++ rest)) := by
      rw [asciiChars_append, List.append_assoc]
      rfl
    rw [hsplit] at hn
    exact .inr (by rw [unsigned?_numeral hs hw (headNot_cons rfl _) hn, List.head?_cons])

theorem noReference_of_head {c : UInt8} (hdigit : isDigit c = false) (hw : isWhite c = false) (hc : c ≠ 0x25)
    (bs : Bytes) : NoReference (c :: bs) := by
  intro n r h
  rw [skipBlank_of_head hw hc, unsigned?_of_head hdigit] at h
  cases h

/-- Nothing in an array begins with the letter of a reference. -/
theorem headNot_items {parentheses : Nat} {vs : List (Operand Decimal)} {t : Bytes}
    (h : Text parentheses (.items vs) t) (rest : Bytes) : HeadNot (· == 0x52) (t ++ 0x5D :: rest) := by
  cases h with
  | noItems => exact headNot_cons rfl rest
  | item hv _ _ _ =>
    obtain ⟨c, cs, rfl, hc⟩ := hv.head
    exact headNot_ne (startsValue_ne hc rfl) _

theorem noReference_items {parentheses : Nat} {vs : List (Operand Decimal)} {g t : Bytes} (hg : Gap g)
    (h : Text parentheses (.items vs) t) (rest : Bytes) : NoReference (g ++ (t ++ 0x5D :: rest)) := by
  intro n r hn
  cases h with
  | noItems =>
    rw [List.nil_append, skipBlank_gap hg] at hn
    exact noReference_of_head rfl rfl (by decide) rest n r hn
  | @item v vs w g' t hv hg' hstop hvs =>
    rw [List.append_assoc, skipBlank_value hg hv] at hn
    have hend : HeadNot isRegular (g' ++ t ++ 0x5D :: rest) := headNot_append hstop fun _ => headNot_cons rfl rest
    rcases hv.unsigned? hend hn with rfl | hpoint
    · rw [List.append_assoc, skipBlank_items hg' hvs]
      exact headNot_items hvs rest
    · obtain ⟨cs, rfl⟩ := List.head?_eq_some_iff.mp hpoint
      rw [skipBlank_of_head rfl (by decide)]
      exact headNot_cons rfl cs

theorem noReference_entries {parentheses : Nat} {es : List (Bytes × Operand Decimal)} {g t : Bytes}
    (hg : Gap g) (h : Text parentheses (.entries es) t) (rest : Bytes) :
    NoReference (g ++ (t ++ 0x3E :: rest)) := by
  intro n r hn
  rw [skipBlank_entries hg h] at hn
  cases h with
  | noEntries => rw [List.nil_append, unsigned?_of_head rfl] at hn; cases hn
  | entry => rw [List.cons_append, unsigned?_of_head rfl] at hn; cases hn

end References

section Values

variable {α : Type} [Scalar α]

/-- The operand with its reals in single precision. -/
abbrev narrow : Operand Decimal → Operand α := Operand.mapReals Scalar.ofDecimalNarrow

omit [Scalar α] in
/-- No numeral begins like a keyword. -/
theorem headNot_keywords {negative : Bool} {sgn ds tail : List Char} (hs : SignText negative sgn)
    (hd : ∀ c ∈ ds, c.isDigit = true) (htail : ds = [] → tail.head? = some '.') (rest : Bytes) :
    HeadNot (· == 0x6E) (asciiChars (sgn ++ ds ++ tail) ++ rest) ∧
      HeadNot (· == 0x74) (asciiChars (sgn ++ ds ++ tail) ++ rest) ∧
      HeadNot (· == 0x66) (asciiChars (sgn ++ ds ++ tail) ++ rest) := by
  obtain ⟨c, cs, heq, hc⟩ := startsNumber_head hs hd htail
  have hne : ∀ {w : UInt8}, startsNumber w = false → (c == w) = false := by
    intro w hw
    simp only [beq_eq_false_iff_ne, ne_eq]
    rintro rfl
    rw [hc] at hw
    cases hw
  rw [heq]
  exact ⟨headNot_ne (hne rfl) _, headNot_ne (hne rfl) _, headNot_ne (hne rfl) _⟩

/-- A value with no parts is read from each of its texts. -/
theorem Text.simple? {v : Operand Decimal} {w : Bytes} (h : Text maxParentheses (.value v) w)
    (harray : ∀ vs, v ≠ .array vs) (hdict : ∀ es, v ≠ .dict es) {references : Bool} {rest : Bytes}
    (hr : HeadNot isRegular rest) (href : references = false ∨ NoReference rest) :
    ∃ o : Object α, ObjectReader.simple? references (w ++ rest) = some (o, rest) ∧
      Operand.ofObject o = narrow v := by
  have hnoref : references = false ∨ reference? (w ++ rest) = none := by
    refine href.imp_right fun href => reference?_eq_none fun n r hn => ?_
    rcases h.unsigned? hr hn with rfl | hpoint
    · exact href
    · obtain ⟨cs, rfl⟩ := List.head?_eq_some_iff.mp hpoint
      exact noReference_of_head rfl rfl (by decide) cs
  cases h with
  | null =>
    have hnull : expect? (ascii "null") (ascii "null" ++ rest) = some rest := expect?_eq_some.mpr rfl
    exact ⟨.null, by simp only [ObjectReader.simple?, hnull, Option.map_some, firstOf], rfl⟩
  | trueWord =>
    have hnull : expect? (ascii "null") (ascii "true" ++ rest) = none :=
      expect?_of_head (w := 0x6E) (headNot_cons rfl _)
    have htrue : expect? (ascii "true") (ascii "true" ++ rest) = some rest := expect?_eq_some.mpr rfl
    exact ⟨.bool true, by
      simp only [ObjectReader.simple?, hnull, htrue, Option.map_some, Option.map_none, firstOf], rfl⟩
  | falseWord =>
    have hnull : expect? (ascii "null") (ascii "false" ++ rest) = none :=
      expect?_of_head (w := 0x6E) (headNot_cons rfl _)
    have htrue : expect? (ascii "true") (ascii "false" ++ rest) = none :=
      expect?_of_head (w := 0x74) (headNot_cons rfl _)
    have hfalse : expect? (ascii "false") (ascii "false" ++ rest) = some rest := expect?_eq_some.mpr rfl
    exact ⟨.bool false, by
      simp only [ObjectReader.simple?, hnull, htrue, hfalse, Option.map_some, Option.map_none, firstOf], rfl⟩
  | @int negative sgn ds n hs hd hne hn hw =>
    have hdigit : HeadNot isDigit rest := headNot_of_imp isRegular_of_isDigit hr
    have hpoint : HeadNot (· == 0x2E) rest := headNot_of_imp (fun c hc => eq_of_beq hc ▸ rfl) hr
    obtain ⟨hn', ht, hf⟩ := headNot_keywords hs hd (fun h => absurd h hne : ds = [] → [].head? = some '.') rest
    rw [List.append_nil] at hn' ht hf
    refine ⟨.int n, ?_, rfl⟩
    rw [simple?_of_numbers hn' ht hf hnoref, asciiChars_append, List.append_assoc,
      real?_digits hs hd hne hdigit hpoint, integer?_digits hs hd hne hdigit hn hw]
    rfl
  | real hs hw hf hne =>
    obtain ⟨hn', ht, hf'⟩ := headNot_keywords hs hw (fun _ => List.head?_cons) rest
    refine ⟨.real _, ?_, rfl⟩
    rw [simple?_of_numbers hn' ht hf' hnoref, real?_point hs hw hf hne (headNot_of_imp isRegular_of_isDigit hr)]
    rfl
  | @name n w hn =>
    refine ⟨.name n, ?_, rfl⟩
    rw [List.cons_append, simple?_of_delimiter rfl]
    simp only [name?, nameBytes_text hn hr, Option.map_some, firstOf]
  | @literal s w hl =>
    have hname : name? (0x28 :: (w ++ [0x29] ++ rest)) = none := rfl
    have hliteral := literal?_text hl rest
    rw [List.cons_append] at hliteral ⊢
    refine ⟨.string s false, ?_, rfl⟩
    rw [simple?_of_delimiter rfl, hname, hliteral]
    rfl
  | @hex ds w hx =>
    have hname : name? (0x3C :: (w ++ [0x3E] ++ rest)) = none := rfl
    have hliteral : literal? (0x3C :: (w ++ [0x3E] ++ rest)) = none := rfl
    have hhex := hexString?_text hx rest
    rw [List.cons_append] at hhex ⊢
    refine ⟨.string (pairNibbles ds) true, ?_, rfl⟩
    rw [simple?_of_delimiter rfl, hname, hliteral, hhex]
    rfl
  | array => exact absurd rfl (harray _)
  | dict => exact absurd rfl (hdict _)

/-- What the strict reader makes of the text of a part: the values in it, up to the end of the part. -/
def ReadFrom (α : Type) [Scalar α] (w : Bytes) : Part → Prop
  | .value v => ∀ (fuel : Nat) (references : Bool) (rest : Bytes), w.length ≤ fuel → HeadNot isRegular rest →
      (references = false ∨ NoReference rest) → ∃ o : Object α,
        value? references fuel (w ++ rest) = some (o, rest) ∧ Operand.ofObject o = narrow v
  | .items vs => ∀ (fuel : Nat) (acc : List (Object α)) (rest : Bytes), w.length < fuel →
      ∃ os, items fuel acc (w ++ 0x5D :: rest) = (acc.reverse ++ os, 0x5D :: rest) ∧
        Operand.ofObjects os = Operand.mapItems Scalar.ofDecimalNarrow vs
  | .entries es => ∀ (fuel : Nat) (acc : Dict α) (rest : Bytes), w.length < fuel →
      (∀ k ∈ es.map Prod.fst, k ∉ acc.map Prod.fst) →
      ∃ found : Dict α, entries fuel acc (w ++ 0x3E :: rest) = (acc ++ found, 0x3E :: rest) ∧
        Operand.ofEntries found = Operand.mapEntries Scalar.ofDecimalNarrow es

theorem Text.length_pos {parentheses : Nat} {v : Operand Decimal} {w : Bytes}
    (h : Text parentheses (.value v) w) : 0 < w.length := by
  obtain ⟨c, cs, rfl, -⟩ := h.head
  exact Nat.zero_lt_succ _

theorem readFrom_simple {v : Operand Decimal} {w : Bytes} (h : Text maxParentheses (.value v) w)
    (harray : ∀ vs, v ≠ .array vs) (hdict : ∀ es, v ≠ .dict es) : ReadFrom α w (.value v) := by
  intro fuel references rest hfuel hr href
  obtain ⟨o, ho, hv⟩ := h.simple? (α := α) harray hdict hr href
  obtain ⟨fuel, rfl⟩ : ∃ n, fuel = n + 1 := ⟨fuel - 1, by have := h.length_pos; omega⟩
  exact ⟨o, value?_of_simple ho, hv⟩

omit [Scalar α] in
theorem setBytes_fresh {acc : Dict α} {k : Bytes} (h : k ∉ acc.map Prod.fst) (v : Object α) :
    acc.setBytes k v = acc ++ [(k, v)] := by
  have hnone : acc.any (fun e => e.1 == k) = false := by
    rw [List.any_eq_false]
    intro e he hk
    exact h (List.mem_map.mpr ⟨e, he, by simpa using hk⟩)
  rw [Dict.setBytes, hnone]
  rfl

/-- Every part is read from each of its texts. -/
theorem readFrom_text {part : Part} {w : Bytes} (h : Text maxParentheses part w) : ReadFrom α w part := by
  induction h with
  | null => exact readFrom_simple .null nofun nofun
  | trueWord => exact readFrom_simple .trueWord nofun nofun
  | falseWord => exact readFrom_simple .falseWord nofun nofun
  | int hs hd hne hn hw => exact readFrom_simple (.int hs hd hne hn hw) nofun nofun
  | real hs hw hf hne => exact readFrom_simple (.real hs hw hf hne) nofun nofun
  | name hn => exact readFrom_simple (.name hn) nofun nofun
  | literal hl => exact readFrom_simple (.literal hl) nofun nofun
  | hex hx => exact readFrom_simple (.hex hx) nofun nofun
  | @array vs g w hg hvs ih =>
    intro fuel references rest hfuel hr href
    simp only [List.length_cons, List.length_append, List.length_nil] at hfuel
    obtain ⟨fuel, rfl⟩ : ∃ n, fuel = n + 1 := ⟨fuel - 1, by omega⟩
    obtain ⟨os, hos, hmap⟩ := ih fuel [] rest (by omega)
    have hin : g ++ (w ++ [0x5D]) ++ rest = g ++ (w ++ 0x5D :: rest) := by simp
    refine ⟨.array os, ?_, ?_⟩
    · rw [List.cons_append, hin]
      exact value?_array references (by rw [skipBlank_items hg hvs, hos]; rfl)
    · simp only [Operand.ofObject, Operand.mapReals, hmap]
  | @dict es g w hg hes ih =>
    intro fuel references rest hfuel hr href
    simp only [List.length_cons, List.length_append, List.length_nil] at hfuel
    obtain ⟨fuel, rfl⟩ : ∃ n, fuel = n + 1 := ⟨fuel - 1, by omega⟩
    obtain ⟨found, hfound, hmap⟩ := ih fuel [] (0x3E :: rest) (by omega) (by simp)
    have hin : g ++ (w ++ [0x3E, 0x3E]) ++ rest = g ++ (w ++ 0x3E :: 0x3E :: rest) := by simp
    refine ⟨.dict found, ?_, ?_⟩
    · rw [List.cons_append, List.cons_append, hin]
      exact value?_dict references (by rw [skipBlank_entries hg hes, hfound]; rfl)
    · simp only [Operand.ofObject, Operand.mapReals, hmap]
  | noItems =>
    intro fuel acc rest hfuel
    obtain ⟨fuel, rfl⟩ : ∃ n, fuel = n + 1 := ⟨fuel - 1, by omega⟩
    refine ⟨[], ?_, rfl⟩
    simp [items, value?_eq_none]
  | @item v vs w g t hv hg hstop hvs ihv ih =>
    intro fuel acc rest hfuel
    have hpos := hv.length_pos
    simp only [List.length_append] at hfuel
    obtain ⟨fuel, rfl⟩ : ∃ n, fuel = n + 1 := ⟨fuel - 1, by omega⟩
    obtain ⟨o, ho, hval⟩ := ihv fuel true (g ++ (t ++ 0x5D :: rest)) (by omega)
      (by rw [← List.append_assoc]; exact headNot_append hstop fun _ => headNot_cons rfl rest)
      (.inr (noReference_items hg hvs rest))
    obtain ⟨os, hos, hmap⟩ := ih fuel (o :: acc) rest (by omega)
    refine ⟨o :: os, ?_, ?_⟩
    · rw [List.append_assoc, List.append_assoc, items]
      simp only [ho, skipBlank_items hg hvs, hos]
      simp
    · simp only [Operand.ofObjects, Operand.mapItems, hval, hmap]
  | noEntries =>
    intro fuel acc rest hfuel _
    exact ⟨[], by rw [List.append_nil]; exact entries_of_head fuel acc (by simp), rfl⟩
  | @entry k v es n g w g' t hk hg hsep hv hg' hstop hfresh hes ihv ih =>
    intro fuel acc rest hfuel hnew
    have hpos := hv.length_pos
    simp only [List.length_cons, List.length_append] at hfuel
    obtain ⟨fuel, rfl⟩ : ∃ n, fuel = n + 1 := ⟨fuel - 1, by omega⟩
    have hkey : name? (0x2F :: (n ++ (g ++ (w ++ (g' ++ (t ++ 0x3E :: rest)))))) =
        some (k, g ++ (w ++ (g' ++ (t ++ 0x3E :: rest)))) := by
      have hend : HeadNot isRegular (g ++ w ++ (g' ++ (t ++ 0x3E :: rest))) :=
        headNot_append hsep fun hnil => by simp [(List.append_eq_nil_iff.mp hnil).2] at hpos
      rw [List.append_assoc] at hend
      rw [name?, nameBytes_text hk hend]
    have hnew' : ∀ (o : Object α), ∀ k' ∈ es.map Prod.fst, k' ∉ (acc ++ [(k, o)]).map Prod.fst := by
      intro o k' hk' hin
      rw [List.map_append, List.mem_append] at hin
      rcases hin with hin | hin
      · exact hnew k' (List.mem_cons_of_mem _ hk') hin
      · obtain rfl : k' = k := List.mem_singleton.mp hin
        exact hfresh hk'
    obtain ⟨o, ho, hval⟩ := ihv fuel true (g' ++ (t ++ 0x3E :: rest)) (by omega)
      (by rw [← List.append_assoc]; exact headNot_append hstop fun _ => headNot_cons rfl rest)
      (.inr (noReference_entries hg' hes rest))
    obtain ⟨found, hfound, hmap⟩ := ih fuel (acc ++ [(k, o)]) rest (by omega) (hnew' o)
    refine ⟨(k, o) :: found, ?_, ?_⟩
    · simp only [List.cons_append, List.append_assoc]
      rw [entries]
      simp only [hkey, skipBlank_value hg hv, ho, setBytes_fresh (hnew k (by simp)), skipBlank_entries hg' hes,
        hfound]
      simp
    · simp only [Operand.ofEntries, Operand.mapEntries, hval, hmap]

end Values

section Operations

open Grammar

/-- A word is not found in front of another one that it is no beginning of. -/
theorem expect?_word {key word : List Char}
    (hkey : ∀ c ∈ key, c.toNat < 0x80 ∧ isRegular (UInt8.ofNat c.toNat) = true)
    (hword : ∀ c ∈ word, c.toNat < 0x80) (h : ¬ key <+: word) {rest : Bytes} (hr : HeadNot isRegular rest) :
    expect? (asciiChars key) (asciiChars word ++ rest) = none := by
  have hno : ¬ (asciiChars key).isPrefixOf (asciiChars word ++ rest) = true := by
    induction key generalizing word with
    | nil => exact absurd List.nil_prefix h
    | cons k key ih =>
      obtain ⟨hk, hregular⟩ := hkey k (by simp)
      cases word with
      | nil =>
        cases rest with
        | nil => simp [asciiChars]
        | cons c rest =>
          have hc : isRegular c = false := hr c rfl
          simp only [asciiChars, List.map_cons, List.map_nil, List.nil_append, List.isPrefixOf,
            Bool.and_eq_true, beq_iff_eq, not_and]
          rintro rfl
          rw [hregular] at hc
          cases hc
      | cons c word =>
        have hc := hword c (by simp)
        simp only [asciiChars, List.map_cons, List.cons_append, List.isPrefixOf, Bool.and_eq_true,
          beq_iff_eq, not_and]
        intro hkc
        have hn := congrArg UInt8.toNat hkc
        rw [UInt8.toNat_ofNat_of_lt' (show _ < 256 by omega),
          UInt8.toNat_ofNat_of_lt' (show _ < 256 by omega)] at hn
        obtain rfl := Char.toNat_inj.mp hn
        exact ih (fun d hd => hkey d (by simp [hd])) (fun d hd => hword d (by simp [hd]))
          fun hsub => h (List.cons_prefix_cons.mpr ⟨rfl, hsub⟩)
  rw [expect?, if_neg hno]

namespace IsPlainOperator

variable {word : String} (h : IsPlainOperator word) {rest : Bytes} (hr : HeadNot isRegular rest)

include h

theorem ascii_chars : ∀ c ∈ word.toList, c.toNat < 0x80 := fun c hc => (h.letters c hc).1

include hr in
theorem expect?_keyword {key : String} (hkey : key ∈ ["null", "true", "false", "BI"]) :
    expect? (ascii key) (ascii word ++ rest) = none := by
  refine expect?_word ?_ h.ascii_chars (h.keyword key hkey) hr
  revert key
  decide

theorem head (rest : Bytes) : ∃ c cs, ascii word ++ rest = c :: cs ∧ isOperatorByte c = true := by
  cases hcs : word.toList with
  | nil => exact absurd hcs h.nonempty
  | cons c cs =>
    refine ⟨UInt8.ofNat c.toNat, asciiChars cs ++ rest, ?_, (h.letters c (by simp [hcs])).2⟩
    rw [ascii_eq, hcs]
    rfl

include hr in
/-- No operand begins with an operator. -/
theorem value?_eq_none {α : Type} [Scalar α] (depth : Nat) :
    value? (α := α) false depth (ascii word ++ rest) = none := by
  obtain ⟨c, cs, heq, hc⟩ := h.head rest
  cases depth with
  | zero => simp [value?]
  | succ depth =>
    have hnone : ∀ key ∈ ["null", "true", "false", "BI"], expect? (ascii key) (ascii word ++ rest) = none :=
      fun _ hkey => h.expect?_keyword hr hkey
    rw [heq] at hnone ⊢
    exact (value?_of_operator hc depth cs).mpr
      ⟨hnone "null" (by simp), hnone "true" (by simp), hnone "false" (by simp)⟩

include hr in
theorem operator?_eq : operator? (ascii word ++ rest) = some (word, rest) := by
  have hstop : rest.takeWhile isOperatorByte = [] ∧ rest.dropWhile isOperatorByte = rest := by
    cases rest with
    | nil => exact ⟨rfl, rfl⟩
    | cons c rest =>
      have hc : isOperatorByte c = false := by
        cases hc : isOperatorByte c with
        | false => rfl
        | true => exact absurd (hr c rfl) (by rw [(isOperatorByte_class hc).1]; decide)
      simp [hc]
  have hall : ∀ c ∈ ascii word, isOperatorByte c = true := by
    intro c hc
    obtain ⟨d, hd, rfl⟩ := List.mem_map.mp hc
    exact (h.letters d hd).2
  have htake : (ascii word ++ rest).takeWhile isOperatorByte = ascii word := by
    rw [List.takeWhile_append_of_pos hall, hstop.1, List.append_nil]
  have hdrop : (ascii word ++ rest).dropWhile isOperatorByte = rest := by
    rw [List.dropWhile_append_of_pos hall, hstop.2]
  have hne : (ascii word).isEmpty = false := by simpa [ascii] using h.nonempty
  have htext : String.ofList (Latin1.decode (ascii word)) = word := by
    rw [ascii_eq, decode_asciiChars h.ascii_chars, String.ofList_toList]
  simp only [operator?, htake, hdrop, hne, htext, Bool.false_eq_true, if_false]

end IsPlainOperator

theorem skipSpaces_append {g : Bytes} (h : ∀ c ∈ g, isSpace c = true) (rest : Bytes) :
    skipSpaces (g ++ rest) = skipSpaces rest :=
  List.dropWhile_append_of_pos h

/-- An operation begins neither with white space nor with a comment. -/
theorem OperationText.head {word : String} {vs : List (Operand Decimal)} {w : Bytes}
    (h : OperationText .plain word vs w) (rest : Bytes) :
    HeadNot isSpace (w ++ rest) ∧ HeadNot (· == 0x25) (w ++ rest) := by
  cases h with
  | operator hword =>
    have hall : ∀ k : Fin 256, isOperatorByte (UInt8.ofNat k) = true →
        isSpace (UInt8.ofNat k) = false ∧ (UInt8.ofNat k == 0x25) = false := by decide +kernel
    obtain ⟨c, cs, heq, hc⟩ := IsPlainOperator.head hword rest
    have hclass := hall ⟨c.toNat, c.toNat_lt⟩
    simp only [UInt8.ofNat_toNat] at hclass
    rw [heq]
    exact ⟨headNot_cons (hclass hc).1 cs, headNot_ne (hclass hc).2 cs⟩
  | operand hv =>
    obtain ⟨c, cs, rfl, hc⟩ := hv.head
    exact ⟨headNot_cons (startsValue_white hc).2 _, headNot_ne (startsValue_ne hc rfl) _⟩

/-- The operands of an operation are read up to its operator. -/
theorem operands_text {α : Type} [Scalar α] {word : String} {vs : List (Operand Decimal)} {w : Bytes}
    (h : OperationText .plain word vs w) {depth fuel : Nat} (hdepth : w.length ≤ depth) (hfuel : w.length < fuel)
    {rest : Bytes} (hr : HeadNot isRegular rest) (acc : List (Operand α)) :
    operands depth fuel acc (w ++ rest) = (acc.reverse ++ vs.map narrow, ascii word ++ rest) := by
  induction h generalizing fuel acc with
  | operator hword =>
    obtain ⟨fuel, rfl⟩ : ∃ n, fuel = n + 1 := ⟨fuel - 1, by omega⟩
    simp [operands, IsPlainOperator.value?_eq_none hword hr]
  | @operand v vs w g t hv hg hstop hvs ih =>
    have hpos := hv.length_pos
    simp only [List.length_append] at hdepth hfuel
    obtain ⟨fuel, rfl⟩ : ∃ n, fuel = n + 1 := ⟨fuel - 1, by omega⟩
    have hend : HeadNot isRegular (g ++ (t ++ rest)) := by
      rw [← List.append_assoc]
      exact headNot_append hstop fun _ => hr
    have hskip : skipSpaces (g ++ (t ++ rest)) = t ++ rest :=
      (skipSpaces_append hg _).trans (skipSpaces_of_headNot (hvs.head rest).1)
    obtain ⟨o, ho, hval⟩ := readFrom_text (α := α) hv depth false (g ++ (t ++ rest)) (by omega) hend (.inl rfl)
    rw [List.append_assoc, List.append_assoc, operands]
    simp only [ho, hval, hskip]
    rw [ih (by omega) (by omega)]
    simp

theorem commentBody?_text {text e : Bytes} (ht : ∀ c ∈ text, isLineEnd c = false)
    (he : e ∈ ([[10], [13], [13, 10]] : List Bytes)) {rest : Bytes} (hr : HeadNot (· == 10) rest) :
    commentBody? (text ++ (e ++ rest)) = some rest := by
  induction text with
  | nil =>
    simp only [List.mem_cons, List.not_mem_nil, or_false] at he
    rcases he with rfl | rfl | rfl
    · rfl
    · cases rest with
      | nil => rfl
      | cons c rest =>
        have hc : c ≠ 10 := beq_eq_false_iff_ne.mp (hr c rfl)
        simp [commentBody?, isLineEnd, lineEnd?, hc]
    · rfl
  | cons c text ih =>
    rw [List.cons_append, commentBody?, ht c (by simp)]
    exact ih fun d hd => ht d (by simp [hd])

/-- Comments in front of something else are passed over. -/
theorem skipComments_text {c : Bytes} (h : Comments c) {rest : Bytes} (hr : HeadNot (· == 0x25) rest)
    (hfeed : HeadNot (· == 10) rest) {fuel : Nat} (hfuel : c.length ≤ fuel) :
    skipComments fuel (c ++ rest) = rest := by
  induction h generalizing fuel with
  | nil =>
    refine skipComments_of_none (comment?_of_head fun hhead => ?_) fuel
    cases hr 0x25 hhead
  | @line text e g ht he hg ih =>
    simp only [List.length_cons, List.length_append] at hfuel
    obtain ⟨fuel, rfl⟩ : ∃ n, fuel = n + 1 := ⟨fuel - 1, by omega⟩
    have hnext : HeadNot (· == 10) (g ++ rest) := by
      cases hg with
      | nil => exact hfeed
      | line => exact headNot_cons rfl _
    have hcomment : comment? (0x25 :: (text ++ (e ++ g)) ++ rest) = some (g ++ rest) := by
      rw [List.cons_append, List.append_assoc, List.append_assoc]
      exact commentBody?_text ht he hnext
    simp only [skipComments, hcomment]
    exact ih (by omega)

theorem headNot_lineFeed {bs : Bytes} (h : HeadNot isSpace bs) : HeadNot (· == 10) bs :=
  headNot_of_imp (fun _ hc => eq_of_beq hc ▸ rfl) h

/-- In front of comments there is no further white space. -/
theorem headNot_comments {c : Bytes} (h : Comments c) {rest : Bytes} (hr : HeadNot isSpace rest) :
    HeadNot isSpace (c ++ rest) := by
  cases h with
  | nil => exact hr
  | line => exact headNot_cons rfl _

/-- An operation is no inline image. -/
theorem OperationText.expect?_image {word : String} {vs : List (Operand Decimal)} {w : Bytes}
    (h : OperationText .plain word vs w) {rest : Bytes} (hr : HeadNot isRegular rest) :
    expect? (ascii "BI") (w ++ rest) = none := by
  cases h with
  | operator hword => exact IsPlainOperator.expect?_keyword hword hr (by decide)
  | operand hv =>
    obtain ⟨c, cs, rfl, hc⟩ := hv.head
    exact expect?_of_head (w := 0x42) (headNot_ne (startsValue_ne hc rfl) _)

/-- An operation in the plain layout is read, and the white space behind it is passed over. -/
theorem step_text {α : Type} [Scalar α] {op : Operation Decimal} {c w : Bytes} (hc : Comments c)
    (h : OperationText .plain op.operator op.operands w) {rest : Bytes} (hr : HeadNot isRegular rest)
    {limit : Nat} (hlimit : (c ++ (w ++ rest)).length < limit) :
    step limit (c ++ (w ++ rest)) = .operation (op.mapReals (Scalar.ofDecimalNarrow (α := α))) (skipSpaces rest) := by
  obtain ⟨hspace, hpercent⟩ := h.head rest
  rw [List.length_append, List.length_append] at hlimit
  have hskip : skipComments limit (c ++ (w ++ rest)) = w ++ rest :=
    skipComments_text hc hpercent (headNot_lineFeed hspace) (by omega)
  have hword : IsPlainOperator op.operator := h.isOperator
  have hvs : operands (α := α) limit limit [] (w ++ rest) = (op.operands.map narrow, ascii op.operator ++ rest) :=
    operands_text h (by omega) (by omega) hr []
  simp only [step, hskip, h.expect?_image hr, hvs, hword.operator?_eq hr]
  rfl

theorem OperationText.length_pos {word : String} {vs : List (Operand Decimal)} {w : Bytes}
    (h : OperationText .plain word vs w) : 0 < w.length := by
  cases h with
  | operator hword =>
    obtain ⟨c, cs, heq, -⟩ := IsPlainOperator.head hword []
    rw [List.append_nil] at heq
    rw [heq]
    exact Nat.zero_lt_succ _
  | operand hv =>
    rw [List.length_append]
    exact Nat.add_pos_left hv.length_pos _

/-- Programs in the plain layout are read to their end. -/
theorem operationsFrom_text {α : Type} [Scalar α] {ops : List (Operation Decimal)} {w : Bytes}
    (h : ProgramText .plain ops w) {limit fuel : Nat} (hlimit : w.length < limit) (hfuel : w.length < fuel)
    (acc : List (Operation α)) :
    operationsFrom limit fuel acc (skipSpaces w) =
      some (acc.reverse ++ ops.map (Operation.mapReals Scalar.ofDecimalNarrow)) := by
  induction h generalizing fuel acc with
  | done hl =>
    obtain ⟨g, c, rfl, hg, hc⟩ := hl
    obtain ⟨fuel, rfl⟩ : ∃ n, fuel = n + 1 := ⟨fuel - 1, by omega⟩
    simp only [List.length_append] at hlimit
    have hcomments : HeadNot isSpace (c ++ []) := headNot_comments hc headNot_nil
    have hrest : skipComments limit (c ++ []) = [] := skipComments_text hc headNot_nil headNot_nil (by omega)
    rw [List.append_nil] at hcomments hrest
    have hskip : skipSpaces (g ++ c) = c := by
      rw [skipSpaces_append hg, skipSpaces_of_headNot hcomments]
    have hstop : step (α := α) limit c = .stop := by
      simp only [step, hrest, operands_nil]
      rfl
    rw [hskip, operationsFrom, hstop]
    simp
  | @operation op ops l w t hl hop hstop _ ih =>
    obtain ⟨g, c, rfl, hg, hc⟩ := hl
    simp only [List.length_append] at hlimit hfuel
    obtain ⟨fuel, rfl⟩ : ∃ n, fuel = n + 1 := ⟨fuel - 1, by omega⟩
    have hskip : skipSpaces (g ++ c ++ (w ++ t)) = c ++ (w ++ t) := by
      rw [List.append_assoc, skipSpaces_append hg, skipSpaces_of_headNot (headNot_comments hc (hop.head t).1)]
    have hstep : step (α := α) limit (c ++ (w ++ t)) = _ :=
      step_text hc hop hstop (by simp only [List.length_append]; omega)
    have hpos := hop.length_pos
    rw [hskip, operationsFrom, hstep]
    simp only
    rw [ih (by omega) (by omega)]
    simp

end Operations

end Spelling

end Marginalia
