import Marginalia.Proofs.Number.Numeral

/-!
Values without parts are read as they are written, whatever follows them behind a blank.
-/

namespace Marginalia

namespace Syntax

/-- The bytes of a row of ASCII characters. -/
def asciiChars (cs : List Char) : Bytes := cs.map fun c => UInt8.ofNat c.toNat

theorem ascii_eq (s : String) : ascii s = asciiChars s.toList := rfl

theorem asciiChars_append (cs ds : List Char) : asciiChars (cs ++ ds) = asciiChars cs ++ asciiChars ds :=
  List.map_append

theorem decode_asciiChars {cs : List Char} (h : ∀ c ∈ cs, c.toNat < 0x80) :
    Latin1.decode (asciiChars cs) = cs := by
  simp only [Latin1.decode, asciiChars, List.map_map]
  refine (List.map_congr_left (g := id) fun c hc => ?_).trans (List.map_id cs)
  have hn : (UInt8.ofNat c.toNat).toNat = c.toNat :=
    UInt8.toNat_ofNat_of_lt' (show c.toNat < 256 by have := h c hc; omega)
  simp [hn, Char.ofNat_toNat]

theorem toNat_of_isDigit {c : Char} (h : c.isDigit = true) : 48 ≤ c.toNat ∧ c.toNat ≤ 57 := by
  simp only [Char.isDigit, Bool.and_eq_true, decide_eq_true_eq] at h
  exact h

theorem isDigit_ofNat {c : Char} (h : c.isDigit = true) : isDigit (UInt8.ofNat c.toNat) = true := by
  obtain ⟨hlo, hhi⟩ := toNat_of_isDigit h
  have hn : (UInt8.ofNat c.toNat).toNat = c.toNat := UInt8.toNat_ofNat_of_lt' (show _ < 256 by omega)
  simp only [isDigit, Bool.and_eq_true, decide_eq_true_eq, UInt8.le_iff_toNat_le, hn]
  exact ⟨hlo, hhi⟩

end Syntax

namespace ObjectReader

open Syntax

/-- That an input does not begin with a byte of some class. -/
def HeadNot (p : UInt8 → Bool) (bs : Bytes) : Prop := ∀ c ∈ bs.head?, p c = false

theorem headNot_nil {p : UInt8 → Bool} : HeadNot p [] := fun _ hc => by cases hc

theorem headNot_append {p : UInt8 → Bool} {bs r : Bytes} (h : HeadNot p bs) (hr : bs = [] → HeadNot p r) :
    HeadNot p (bs ++ r) := by
  cases bs with
  | nil => exact hr rfl
  | cons c bs => exact h

theorem headNot_cons {p : UInt8 → Bool} {c : UInt8} (h : p c = false) (bs : Bytes) : HeadNot p (c :: bs) := by
  intro d hd
  cases hd
  exact h

theorem headNot_ne {c d : UInt8} (h : (c == d) = false) (bs : Bytes) : HeadNot (· == d) (c :: bs) := by
  intro e he
  cases he
  exact h

/-- What is no part of a token is no part of a smaller class of bytes. -/
theorem headNot_of_imp {p q : UInt8 → Bool} (himp : ∀ c, q c = true → p c = true) {bs : Bytes}
    (h : HeadNot p bs) : HeadNot q bs := by
  intro c hc
  cases hq : q c with
  | false => rfl
  | true => cases (h c hc).symm.trans (himp c hq)

theorem digits_append {ds : List Char} (hd : ∀ c ∈ ds, c.isDigit = true) {rest : Bytes}
    (hr : HeadNot isDigit rest) : digits (asciiChars ds ++ rest) = (asciiChars ds, rest) := by
  have hstop : rest.takeWhile isDigit = [] ∧ rest.dropWhile isDigit = rest := by
    cases rest with
    | nil => exact ⟨rfl, rfl⟩
    | cons c rest => simp [hr c rfl]
  induction ds with
  | nil =>
    change digits rest = ([], rest)
    rw [digits, hstop.1, hstop.2]
  | cons d ds ih =>
    have ih := ih fun c hc => hd c (by simp [hc])
    simp only [digits, Prod.mk.injEq] at ih
    simp only [digits, asciiChars, List.map_cons, List.cons_append, List.takeWhile_cons,
      List.dropWhile_cons, isDigit_ofNat (hd d (by simp)), if_true]
    simp only [asciiChars] at ih
    rw [ih.1, ih.2]

theorem sign_append {negative : Bool} {sgn : List Char} (hs : SignText negative sgn) {bs : Bytes}
    (h : ∀ c ∈ bs.head?, c ≠ 0x2B ∧ c ≠ 0x2D) : sign (asciiChars sgn ++ bs) = (asciiChars sgn, bs) := by
  cases hs with
  | plus | minus => rfl
  | plain =>
    change sign bs = ([], bs)
    unfold sign
    split
    · exact absurd rfl (h 0x2B rfl).1
    · exact absurd rfl (h 0x2D rfl).2
    · rfl

theorem head?_digits {ds : List Char} (hd : ∀ c ∈ ds, c.isDigit = true) (hne : ds ≠ []) (rest : Bytes) :
    ∀ c ∈ (asciiChars ds ++ rest).head?, isDigit c = true := by
  cases ds with
  | nil => exact absurd rfl hne
  | cons d ds =>
    intro c hc
    simp only [asciiChars, List.map_cons, List.cons_append, List.head?_cons, Option.mem_some_iff] at hc
    exact hc ▸ isDigit_ofNat (hd d (by simp))

/-- Digits begin with no sign. -/
theorem no_sign_of_digits {ds : List Char} (hd : ∀ c ∈ ds, c.isDigit = true) (hne : ds ≠ []) (rest : Bytes) :
    ∀ c ∈ (asciiChars ds ++ rest).head?, c ≠ 0x2B ∧ c ≠ 0x2D := by
  intro c hc
  have hdigit := head?_digits hd hne rest c hc
  constructor <;> (rintro rfl; exact absurd hdigit (by decide))

theorem no_sign {ds : List Char} (hd : ∀ c ∈ ds, c.isDigit = true) {rest : Bytes}
    (hr : ∀ c ∈ rest.head?, c ≠ 0x2B ∧ c ≠ 0x2D) :
    ∀ c ∈ (asciiChars ds ++ rest).head?, c ≠ 0x2B ∧ c ≠ 0x2D := by
  cases ds with
  | nil => exact hr
  | cons d ds => exact no_sign_of_digits hd (List.cons_ne_nil _ _) rest

theorem isRegular_of_isDigit (c : UInt8) (h : isDigit c = true) : isRegular c = true := by
  have hall : ∀ k : Fin 256, isDigit (UInt8.ofNat k) = true → isRegular (UInt8.ofNat k) = true := by
    decide +kernel
  simpa using hall ⟨c.toNat, c.toNat_lt⟩ (by simpa using h)

/-- The characters of a numeral are ASCII, and their bytes regular. -/
theorem numeral_chars {negative : Bool} {sgn ds tail : List Char} (hs : SignText negative sgn)
    (hd : ∀ c ∈ ds, c.isDigit = true) (ht : ∀ c ∈ tail, c = '.' ∨ c.isDigit = true) :
    ∀ c ∈ sgn ++ ds ++ tail, c.toNat < 0x80 ∧ isRegular (UInt8.ofNat c.toNat) = true := by
  have hdigit : ∀ c : Char, c.isDigit = true → c.toNat < 0x80 ∧ isRegular (UInt8.ofNat c.toNat) = true := by
    intro c hc
    have := toNat_of_isDigit hc
    exact ⟨by omega, isRegular_of_isDigit _ (isDigit_ofNat hc)⟩
  intro c hc
  simp only [List.mem_append] at hc
  rcases hc with (hc | hc) | hc
  · revert c
    cases hs <;> decide
  · exact hdigit c (hd c hc)
  · rcases ht c hc with rfl | hc
    · decide
    · exact hdigit c hc

/-- The text of a numeral, with a point or without one. -/
theorem chars_numeral {negative : Bool} {sgn ds tail : List Char} (hs : SignText negative sgn)
    (hd : ∀ c ∈ ds, c.isDigit = true) (ht : ∀ c ∈ tail, c = '.' ∨ c.isDigit = true) :
    chars (asciiChars (sgn ++ ds ++ tail)) = sgn ++ ds ++ tail :=
  decode_asciiChars fun c hc => (numeral_chars hs hd ht c hc).1

section Numbers

variable {α : Type} [Scalar α]

/-- Digits with a point among them are read as a real. -/
theorem real?_point {negative : Bool} {sgn whole fraction : List Char} (hs : SignText negative sgn)
    (hw : ∀ c ∈ whole, c.isDigit = true) (hf : ∀ c ∈ fraction, c.isDigit = true)
    (hne : whole ++ fraction ≠ []) {rest : Bytes} (hr : HeadNot isDigit rest) :
    real? (α := α) (asciiChars (sgn ++ whole ++ '.' :: fraction) ++ rest) =
      some (Scalar.ofDecimalNarrow
        ⟨negative, Decimal.natOfDigits (whole ++ fraction), -(fraction.length : Int)⟩, rest) := by
  have hbytes : asciiChars (sgn ++ whole ++ '.' :: fraction) ++ rest =
      asciiChars sgn ++ (asciiChars whole ++ (0x2E :: (asciiChars fraction ++ rest))) := by
    rw [asciiChars_append, asciiChars_append, List.append_assoc, List.append_assoc]
    rfl
  have hchars : chars (asciiChars sgn ++ asciiChars whole ++ 0x2E :: asciiChars fraction) =
      sgn ++ whole ++ '.' :: fraction := by
    have hpoint : ∀ c ∈ '.' :: fraction, c = '.' ∨ c.isDigit = true := by
      simpa using fun c hc => .inr (hf c hc)
    have h := chars_numeral hs hw hpoint
    rwa [asciiChars_append, asciiChars_append] at h
  have hpoint : HeadNot isDigit (0x2E :: (asciiChars fraction ++ rest)) := by
    intro c hc
    cases hc
    rfl
  rw [hbytes, real?, sign_append hs (no_sign hw (by simp))]
  simp only [digits_append hw hpoint, digits_append hf hr, hchars, Decimal.parse?_point hs hw hf hne,
    Option.map_some]

/-- A numeral with decimal places is read as a real. -/
theorem real?_positional {d : Decimal} (h : d.exponent < 0) {rest : Bytes} (hr : HeadNot isDigit rest) :
    real? (α := α) (ascii d.positional ++ rest) = some (Scalar.ofDecimalNarrow d, rest) := by
  obtain ⟨whole, fraction, htext, hw, hf, hne, hdigits, hexp⟩ := Decimal.positional_point h
  rw [ascii_eq, htext, real?_point (signText_signChars _) hw hf (by simp [hne]) hr, hdigits, hexp]

/-- A numeral without a point is no real. -/
theorem real?_digits {negative : Bool} {sgn ds : List Char} (hs : SignText negative sgn)
    (hd : ∀ c ∈ ds, c.isDigit = true) (hne : ds ≠ []) {rest : Bytes} (hr : HeadNot isDigit rest)
    (hp : HeadNot (· == 0x2E) rest) :
    real? (α := α) (asciiChars sgn ++ (asciiChars ds ++ rest)) = none := by
  rw [real?, sign_append hs (no_sign_of_digits hd hne rest)]
  simp only [digits_append hd hr]
  split
  · rename_i heq
    exact absurd (hp 0x2E rfl) (by decide)
  · rfl

theorem integer?_digits {negative : Bool} {sgn ds : List Char} (hs : SignText negative sgn)
    (hd : ∀ c ∈ ds, c.isDigit = true) (hne : ds ≠ []) {rest : Bytes} (hr : HeadNot isDigit rest) {n : Int}
    (hn : n = if negative then -(Decimal.natOfDigits ds : Int) else Decimal.natOfDigits ds)
    (hw : inWordRange n = true) :
    integer? (asciiChars sgn ++ (asciiChars ds ++ rest)) = some (n, rest) := by
  have hchars : chars (asciiChars sgn ++ asciiChars ds) = sgn ++ ds := by
    have h := chars_numeral hs hd (show ∀ c ∈ ([] : List Char), c = '.' ∨ c.isDigit = true by simp)
    rwa [List.append_nil, asciiChars_append] at h
  rw [integer?, sign_append hs (no_sign_of_digits hd hne rest)]
  simp only [digits_append hd hr, hchars, Decimal.parseInt?_digits hs hd hne, ← hn, hw, if_true]

/-- What begins with something else than a digit, a sign or a point is no number. -/
theorem real?_of_head {c : UInt8} (h : startsNumber c = false) (bs : Bytes) :
    real? (α := α) (c :: bs) = none ∧ integer? (c :: bs) = none := by
  simp only [startsNumber, Bool.or_eq_false_iff, beq_eq_false_iff_ne] at h
  obtain ⟨⟨⟨hd, hp⟩, hm⟩, hdot⟩ := h
  have hs : sign (c :: bs) = ([], c :: bs) := by
    unfold sign
    split
    · exact absurd (List.cons.inj ‹_›).1 hp
    · exact absurd (List.cons.inj ‹_›).1 hm
    · rfl
  have hdig : digits (c :: bs) = ([], c :: bs) := by simp [digits, hd]
  constructor
  · simp only [real?, hs, hdig]
    split
    · rename_i heq
      exact absurd (List.cons.inj heq).1 hdot
    · rfl
  · simp only [integer?, hs, hdig]
    rfl

/-- Nothing is no value. -/
theorem value?_nil (references : Bool) (fuel : Nat) : value? (α := α) references fuel [] = none := by
  cases fuel with
  | zero => simp [value?]
  | succ fuel =>
    cases references <;> (unfold value?; rfl)

end Numbers

theorem toList_int (n : Int) :
    (toString n).toList = signChars (decide (n < 0)) ++ Decimal.digitsOf n.natAbs := by
  rw [Int.toString_eq_repr, Int.repr_eq_if]
  split
  · rename_i h
    have hn : ¬ n < 0 := by omega
    simp only [hn, decide_false, signChars, Bool.false_eq_true, if_false, List.nil_append,
      Nat.toList_repr, Decimal.digitsOf]
    congr 1
    omega
  · rename_i h
    have hn : n < 0 := by omega
    simp only [hn, decide_true, signChars, if_true, String.toList_append, Nat.toList_repr,
      Decimal.digitsOf]
    have : (-n).toNat = n.natAbs := by omega
    rw [this]
    rfl

theorem expect?_of_head {w : UInt8} {word bs : Bytes} (h : HeadNot (· == w) bs) :
    expect? (w :: word) bs = none := by
  cases bs with
  | nil => rfl
  | cons c bs =>
    have hc : (c == w) = false := h c rfl
    have hw : (w == c) = false := by
      simpa using fun he : w = c => by simp [he] at hc
    simp [expect?, List.isPrefixOf, hw]

section Names

theorem nameBytes_stop {c : UInt8} (h : isRegular c = false) (bs : Bytes) :
    nameBytes (c :: bs) = ([], c :: bs) := by
  match bs with
  | [] => simp [nameBytes, h]
  | [d] => simp [nameBytes, h]
  | d :: e :: bs => simp [nameBytes, h]

theorem nameBytes_regular {c : UInt8} (h : isRegular c = true) (hc : c ≠ 0x23) (bs : Bytes) :
    nameBytes (c :: bs) = (c :: (nameBytes bs).1, (nameBytes bs).2) := by
  match bs with
  | [] => simp [nameBytes, h, hc]
  | [d] =>
    by_cases hd : isRegular d = true
    · by_cases hh : d = 0x23
      · simp [nameBytes, h, hc, hh]
      · simp [nameBytes, h, hc, hd, hh]
    · simp [nameBytes, h, hc, hd]
  | d :: e :: bs => simp [nameBytes, h, hc]

/-- A name that needs no escapes is read up to the blank behind it. -/
theorem nameBytes_append {n : Bytes} (h : ∀ c ∈ n, ObjectPrinter.isNameByte c = true) (rest : Bytes) :
    nameBytes (n ++ 0x20 :: rest) = (n, 0x20 :: rest) := by
  induction n with
  | nil => exact nameBytes_stop rfl rest
  | cons c n ih =>
    have hc := h c (by simp)
    simp only [ObjectPrinter.isNameByte, Bool.and_eq_true, bne_iff_ne] at hc
    rw [List.cons_append, nameBytes_regular hc.1.2 hc.2, ih fun c' hc' => h c' (by simp [hc'])]

theorem print_name {n : Bytes} (h : ∀ c ∈ n, ObjectPrinter.isNameByte c = true) :
    ObjectPrinter.name n = 0x2F :: n := by
  unfold ObjectPrinter.name
  congr 1
  induction n with
  | nil => rfl
  | cons c n ih =>
    rw [List.flatMap_cons, h c (by simp), ih fun c' hc' => h c' (by simp [hc'])]
    rfl

end Names

section HexStrings

/-- The digits of a byte. -/
def nibbles (s : Bytes) : List UInt8 := s.flatMap fun c => [c / 16, c % 16]

theorem hexValue?_hexDigit (c : UInt8) : hexValue? (hexDigit c) = some (c % 16) := by
  have hall : ∀ k : Fin 256, hexValue? (hexDigit (UInt8.ofNat k)) = some (UInt8.ofNat k % 16) := by
    decide +kernel
  simpa using hall ⟨c.toNat, c.toNat_lt⟩

theorem hexDigit_ne (c : UInt8) : (hexDigit c == 0x3E) = false := by
  have hall : ∀ k : Fin 256, (hexDigit (UInt8.ofNat k) == 0x3E) = false := by
    decide +kernel
  simpa using hall ⟨c.toNat, c.toNat_lt⟩

theorem div_mod_nibble (c : UInt8) :
    c / 16 % 16 = c / 16 ∧ c % 16 % 16 = c % 16 ∧ c / 16 * 16 + c % 16 = c := by
  have hall : ∀ k : Fin 256, UInt8.ofNat k / 16 % 16 = UInt8.ofNat k / 16 ∧
      UInt8.ofNat k % 16 % 16 = UInt8.ofNat k % 16 ∧
      UInt8.ofNat k / 16 * 16 + UInt8.ofNat k % 16 = UInt8.ofNat k := by decide +kernel
  simpa using hall ⟨c.toNat, c.toNat_lt⟩

theorem pairNibbles_nibbles (s : Bytes) : pairNibbles (nibbles s) = s := by
  induction s with
  | nil => rfl
  | cons c s ih =>
    have hsplit : nibbles (c :: s) = c / 16 :: c % 16 :: nibbles s := rfl
    rw [hsplit, pairNibbles, ih, (div_mod_nibble c).2.2]

theorem hexBody?_append (s : Bytes) (before : List UInt8) (rest : Bytes) :
    hexBody? before (s.flatMap hexPair ++ 0x3E :: rest) =
      some (pairNibbles (before.reverse ++ nibbles s), rest) := by
  induction s generalizing before with
  | nil => simp [hexBody?, nibbles]
  | cons c s ih =>
    have hsplit : nibbles (c :: s) = c / 16 :: c % 16 :: nibbles s := rfl
    simp only [List.flatMap_cons, hexPair, List.cons_append, List.nil_append, hexBody?, hexDigit_ne,
      hexValue?_hexDigit, Bool.false_eq_true, if_false, ih, (div_mod_nibble c).1, (div_mod_nibble c).2.1, hsplit,
      List.reverse_cons, List.append_assoc]

theorem hexString?_print (s rest : Bytes) :
    hexString? (ObjectPrinter.hexString s ++ rest) = some (s, rest) := by
  have hb : ObjectPrinter.hexString s ++ rest = 0x3C :: (s.flatMap hexPair ++ 0x3E :: rest) := by
    simp [ObjectPrinter.hexString]
  rw [hb, hexString?, hexBody?_append, List.reverse_nil, List.nil_append, pairNibbles_nibbles]

end HexStrings

end ObjectReader

end Marginalia
