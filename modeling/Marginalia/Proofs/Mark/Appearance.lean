import Mathlib.Data.List.TakeWhile
import Marginalia.Mark.DefaultAppearance
import Marginalia.Proofs.Mark.Parts
import Marginalia.Proofs.Number.Numeral
import Marginalia.Proofs.Text.Scan

/-!
The default appearance of a free text is read with the size and the colour that it was written with. The
numbers in it have three decimals, which suffice for sizes in whole pixels and for channels of a byte.
-/

namespace Marginalia

namespace Decimal

theorem parse?_digits {ds : List Char} (hd : ∀ c ∈ ds, c.isDigit = true) (hne : ds ≠ []) :
    parse? ds = some ⟨false, natOfDigits ds, 0⟩ := by
  obtain ⟨htake, hdrop⟩ := takeWhile_digits [] hd (by simp)
  rw [List.append_nil] at htake hdrop
  have hsign : takeSign ([] ++ ds) = (false, ds) := takeSign_text .plain (by
    simpa using no_sign hd (show ∀ c ∈ ([] : List Char).head?, c ≠ '-' ∧ c ≠ '+' by simp))
  rw [List.nil_append] at hsign
  have he : (ds.isEmpty && ([] : List Char).isEmpty) = false := by simpa using hne
  simp only [parse?, hsign, htake, hdrop, he, Bool.false_eq_true, if_false, parseExponent?, Option.map_some,
    List.append_nil, List.length_nil]
  rfl

theorem natOfDigits_zeros {ds : List Char} (hd : ∀ c ∈ ds, c.isDigit = true) (k : Nat) :
    natOfDigits (ds ++ List.replicate k '0') = natOfDigits ds * 10 ^ k := by
  rw [natOfDigits_eq (isDigit_append hd isDigit_zeros), natOfDigits_eq hd, Nat.ofDigitChars_append,
    Nat.ofDigitChars_replicate_zero, Nat.mul_comm]

end Decimal

namespace DefaultAppearance

variable {N : Numerals}

/-- Every row of digits has some zeros at its end, and another digit in front of them if any. -/
theorem trailing_zeros (ds : List Char) : ∃ front k, ds = front ++ List.replicate k '0' ∧
    ∀ c ∈ front.reverse.head?, c ≠ '0' := by
  have hzeros : ds.reverse.takeWhile (· == '0') =
      List.replicate (ds.reverse.takeWhile (· == '0')).length '0' :=
    List.eq_replicate_of_mem fun c hc => by simpa using List.mem_takeWhile_imp hc
  have hsplit := congrArg List.reverse
    (@List.takeWhile_append_dropWhile _ (· == '0') ds.reverse)
  rw [List.reverse_append, List.reverse_reverse, hzeros, List.reverse_replicate] at hsplit
  refine ⟨_, _, hsplit.symm, fun c hc => ?_⟩
  rw [List.reverse_reverse] at hc
  have hhead := List.head?_dropWhile_not (· == '0') ds.reverse
  rw [Option.mem_def.mp hc] at hhead
  simpa using hhead

/-- What is left of a numeral without the zeros behind its decimals, and without its point if there are no
other decimals. -/
theorem strip_zeros {whole fraction : List Char} (hwhole : ∀ c ∈ whole, c.isDigit = true) (hne : whole ≠ [])
    (hfraction : ∀ c ∈ fraction, c.isDigit = true) (hlast : ∀ c ∈ fraction.reverse.head?, c ≠ '0') (k : Nat) :
    (((whole ++ '.' :: (fraction ++ List.replicate k '0')).reverse.dropWhile (· == '0')).dropWhile
      (· == '.')).reverse = if fraction = [] then whole else whole ++ '.' :: fraction := by
  have hback : (whole ++ '.' :: (fraction ++ List.replicate k '0')).reverse =
      List.replicate k '0' ++ (fraction.reverse ++ '.' :: whole.reverse) := by simp
  have hzeros : ∀ c ∈ List.replicate k '0', (c == '0') = true := fun c hc => by
    simpa using List.eq_of_mem_replicate hc
  have hdot : ∀ c : Char, c.isDigit = true → (c == '.') = false := by
    intro c hc
    apply beq_false_of_ne
    rintro rfl
    cases hc
  rw [hback, List.dropWhile_append_of_pos hzeros]
  cases hf : fraction.reverse with
  | nil =>
    have hnone : fraction = [] := by simpa using hf
    cases hw : whole.reverse with
    | nil => exact absurd (by simpa using hw) hne
    | cons c cs =>
      have hc := hdot c (hwhole c (by simpa using congrArg (c ∈ ·) hw))
      simp only [if_pos hnone, List.nil_append, List.dropWhile_cons, hc, Bool.false_eq_true, if_false,
        show ('.' == '0') = false from rfl, beq_self_eq_true, if_true]
      rw [← hw, List.reverse_reverse]
  | cons c cs =>
    have hsome : fraction ≠ [] := by
      rintro rfl
      cases hf
    have hzero : (c == '0') = false := beq_false_of_ne (hlast c (by simp [hf]))
    have hc := hdot c (hfraction c (by simpa using congrArg (c ∈ ·) hf))
    simp only [if_neg hsome, List.cons_append, List.dropWhile_cons, hzero, hc, Bool.false_eq_true, if_false]
    rw [← List.cons_append, ← hf]
    simp

/-- A number is written as a whole number, or with decimals of which the last one is no zero. The decimals
that were left off are zeros. -/
theorem numberText_eq {x : Exact N} (hx : 0 ≤ x) : ∃ whole fraction : List Char, ∃ k : Nat,
    (numberText x).toList = (if fraction = [] then whole else whole ++ '.' :: fraction) ∧
      (∀ c ∈ whole, c.isDigit = true) ∧ (∀ c ∈ fraction, c.isDigit = true) ∧ whole ≠ [] ∧
      fraction.length + k = 3 ∧
      Decimal.natOfDigits (whole ++ fraction) * 10 ^ k = (Decimal.ofRat 3 false x).digits := by
  obtain ⟨whole, decimals, htext, hwhole, hdecimals, hne, hdigits, hlength⟩ :=
    @Decimal.positional_point (Decimal.ofRat 3 false x) (show (-(3 : Nat) : Int) < 0 by decide)
  have hfixed : (Scalar.fixed 3 x).toList = whole ++ '.' :: decimals := by
    have hsign : decide (x < 0) = false := decide_eq_false (not_lt.mpr hx)
    have hexact : Scalar.exact x = .finite false x := congrArg (Extended.finite · x) hsign
    rw [Scalar.fixed, hexact]
    exact htext
  obtain ⟨fraction, k, rfl, hlast⟩ := trailing_zeros decimals
  have hfraction : ∀ c ∈ fraction, c.isDigit = true := fun c hc => hdecimals c (List.mem_append_left _ hc)
  refine ⟨whole, fraction, k, ?_, hwhole, hfraction, hne, ?_, ?_⟩
  · have hnumber : ∀ cs : List Char, cs = (if fraction = [] then whole else whole ++ '.' :: fraction) →
        (cs.isEmpty || cs == ['-', '0']) = false := by
      rintro cs rfl
      cases hw : whole with
      | nil => exact absurd hw hne
      | cons c cs =>
        have hc : c ≠ '-' := by
          rintro rfl
          cases hwhole '-' (by simp [hw])
        split <;> simp [hc]
    have hstripped := strip_zeros hwhole hne hfraction hlast k
    rw [← hfixed] at hstripped
    simp only [numberText, hstripped, hnumber _ rfl, Bool.false_eq_true, if_false, String.toList_ofList]
  · simp only [Decimal.ofRat, List.length_append, List.length_replicate] at hlength
    omega
  · rw [← Decimal.natOfDigits_zeros (Decimal.isDigit_append hwhole hfraction), List.append_assoc, hdigits]

theorem isNumeral_of_isDigit {c : Char} (h : c.isDigit = true) : isNumeral c = true := by
  obtain ⟨hlow, hhigh⟩ := Char.isDigit_iff_toNat.mp h
  have hfirst : Unicode.inRanges Unicode.decimalDigits c.toNat = true := by
    simp only [Unicode.inRanges, Unicode.decimalDigits, List.any_cons, Bool.or_eq_true, Bool.and_eq_true,
      decide_eq_true_eq]
    exact .inl ⟨hlow, hhigh⟩
  rw [isNumeral, hfirst, Bool.or_true]

/-- A row of characters that a number is looked for in, and the number that stands there. -/
structure IsNumeralOf (q : ℚ) (cs : List Char) : Prop where
  ne_nil : cs ≠ []
  chars : ∀ c ∈ cs, c = '.' ∨ c.isDigit = true
  parse : ∃ d : Decimal, Decimal.parse? cs = some d ∧ -3 ≤ d.exponent ∧ d.value = q

theorem IsNumeralOf.isNumeral {q : ℚ} {cs : List Char} (h : IsNumeralOf q cs) :
    ∀ c ∈ cs, isNumeral c = true := by
  intro c hc
  rcases h.chars c hc with rfl | hd
  · rfl
  · exact isNumeral_of_isDigit hd

/-- What is written for a number is a numeral for the number with three decimals. -/
theorem isNumeralOf_numberText {x : Exact N} (hx : 0 ≤ x) :
    IsNumeralOf (Decimal.ofRat 3 false x).value (numberText x).toList := by
  obtain ⟨whole, fraction, k, htext, hwhole, hfraction, hne, hlength, hdigits⟩ := numberText_eq hx
  rw [htext]
  have hvalue : (Decimal.ofRat 3 false x).value =
      (Decimal.natOfDigits (whole ++ fraction) * 10 ^ k : ℚ) / 10 ^ 3 := by
    have hplaces : (Decimal.ofRat 3 false x).value = ((Decimal.ofRat 3 false x).digits : ℚ) / 10 ^ 3 :=
      Decimal.value_places _ (by decide)
    rw [hplaces, ← hdigits]
    push_cast
    rfl
  by_cases hnone : fraction = []
  · subst hnone
    rw [List.length_nil, Nat.zero_add] at hlength
    rw [List.append_nil, hlength, mul_div_cancel_right₀ _ (by norm_num)] at hvalue
    rw [if_pos rfl]
    refine ⟨hne, fun c hc => .inr (hwhole c hc), _, Decimal.parse?_digits hwhole hne, by simp, ?_⟩
    rw [hvalue]
    simp [Decimal.value, Decimal.magnitude]
  · rw [if_neg hnone]
    have hpos : 0 < fraction.length := List.length_pos_iff.mpr hnone
    have hparse := Decimal.parse?_point .plain hwhole hfraction (by simp [hne])
    rw [List.nil_append] at hparse
    refine ⟨by simp, fun c hc => ?_, _, hparse, ?_, ?_⟩
    · simp only [List.mem_append, List.mem_cons] at hc
      rcases hc with hc | rfl | hc
      · exact .inr (hwhole c hc)
      · exact .inl rfl
      · exact .inr (hfraction c hc)
    · simp only
      omega
    · have hpow : (10 : ℚ) ^ 3 = 10 ^ fraction.length * 10 ^ k := by rw [← pow_add, hlength]
      rw [Decimal.value_places _ hpos, hvalue, hpow]
      field_simp

variable {q : ℚ} {operator cs rest : List Char} {n : Nat}

/-- A numeral with a space behind it is one of the numerals in front of an operator. -/
theorem numeralsBefore?_row (h : IsNumeralOf q cs) (hrest : ∀ c ∈ rest.head?, Unicode.isWhite c = false) :
    numeralsBefore? operator (n + 1) (cs ++ ' ' :: rest) = (numeralsBefore? operator n rest).map (cs :: ·) := by
  have hrow : someRow? isNumeral (cs ++ ' ' :: rest) = some (cs, ' ' :: rest) :=
    someRow?_append h.ne_nil h.isNumeral (by simp; rfl)
  simp only [numeralsBefore?, hrow, someBlank?_space hrest, Option.bind_eq_bind, Option.bind_some]
  cases numeralsBefore? operator n rest <;> rfl

/-- Where no numeral begins there are no numerals in front of an operator. -/
theorem numeralsBefore?_none {c : Char} (h : isNumeral c = false) :
    numeralsBefore? operator (n + 1) (c :: cs) = none := by
  simp [numeralsBefore?, someRow?, h]

/-- Text without numerals is passed over. -/
theorem firstMatch?_text (h : ∀ c ∈ cs, isNumeral c = false) :
    firstMatch? (numeralsBefore? operator (n + 1)) (cs ++ rest) =
      firstMatch? (numeralsBefore? operator (n + 1)) rest :=
  firstMatch?_skip fun c _ hs => numeralsBefore?_none (h c (hs.subset (by simp)))

/-- A numeral with something else behind it than the operator is passed over. -/
theorem firstMatch?_row (h : IsNumeralOf q cs) (hrest : ∀ c ∈ rest.head?, Unicode.isWhite c = false)
    (hnone : numeralsBefore? operator n rest = none) :
    firstMatch? (numeralsBefore? operator (n + 1)) (cs ++ ' ' :: rest) =
      firstMatch? (numeralsBefore? operator (n + 1)) (' ' :: rest) := by
  refine firstMatch?_skip fun c ds hs => ?_
  have hrow : someRow? isNumeral (c :: ds ++ ' ' :: rest) = some (c :: ds, ' ' :: rest) :=
    someRow?_append (by simp) (fun e he => h.isNumeral e (hs.subset he)) (by simp; rfl)
  simp only [numeralsBefore?, hrow, someBlank?_space hrest, hnone, Option.bind_eq_bind, Option.bind_some,
    Option.bind_none]

/-- A numeral with few decimals is read as what it says. -/
theorem IsNumeralOf.read (h : IsNumeralOf q cs) :
    ∃ d : Decimal, Decimal.parse? cs = some d ∧ (Scalar.ofDecimal d : Exact N) = q := by
  obtain ⟨d, hparse, hplaces, hvalue⟩ := h.parse
  have hshort : -(N.places : Int) ≤ d.exponent := by
    have := N.three_le_places
    omega
  exact ⟨d, hparse, (N.read_short d hshort).trans hvalue⟩

/-- The decimal value that stands for a size in whole pixels is the size. -/
theorem value_fontPoints (n : Nat) :
    (Decimal.ofRat 3 false (Resolution.fontPoints n : Exact N)).value = (Resolution.fontPoints n : Exact N) := by
  have hsize : (Resolution.fontPoints n : Exact N) = ((n : ℚ) * (3 / 4) : ℚ) :=
    Exact.toPoints_eq (n : Exact N)
  rw [hsize]
  apply @Decimal.value_ofRat_of_whole 3 (by decide) _ (by positivity) (750 * n)
  push_cast
  ring

/-- The decimal value that stands for a channel is read as the channel. -/
theorem byteOfUnit_value {b : UInt8} {v : Exact N}
    (h : v = (Decimal.ofRat 3 false (Color.unitOfByte b : Exact N)).value) : Color.byteOfUnit v = b := by
  have hunit : (Color.unitOfByte b : Exact N) = (b.toNat : Exact N) / 255 := by
    unfold Color.unitOfByte
    push_cast
    rfl
  have hnonneg : (0 : Exact N) ≤ Color.unitOfByte b := by
    rw [hunit]
    positivity
  have hnear : |v - Color.unitOfByte b| ≤ (1 / (2 * 10 ^ 3) : Exact N) :=
    h ▸ @Decimal.abs_value_ofRat_sub_le 3 (by decide) _ hnonneg
  rw [hunit, abs_le] at hnear
  apply Color.byteOfUnit_of_near
  rw [abs_lt]
  constructor <;> linarith [hnear.1, hnear.2]

theorem toList_render (size : Exact N) (c : Color) : (render size c).toList =
    "/Helv ".toList ++ ((numberText size).toList ++ ' ' :: ("Tf".toList ++
      ' ' :: ((numberText (Color.unitOfByte c.red : Exact N)).toList ++
        ' ' :: ((numberText (Color.unitOfByte c.green : Exact N)).toList ++
          ' ' :: ((numberText (Color.unitOfByte c.blue : Exact N)).toList ++ ' ' :: "rg".toList))))) := by
  simp [render, Color.units, String.join]

theorem IsNumeralOf.head_dark (h : IsNumeralOf q cs) (rest : List Char) :
    ∀ c ∈ (cs ++ rest).head?, Unicode.isWhite c = false := by
  intro c hc
  rw [List.head?_append_of_ne_nil _ h.ne_nil] at hc
  rcases h.chars c (List.mem_of_mem_head? hc) with rfl | hd
  · rfl
  · obtain ⟨hlow, hhigh⟩ : 48 ≤ c.toNat ∧ c.toNat ≤ 57 := Char.isDigit_iff_toNat.mp hd
    simp [Unicode.isWhite, Unicode.inRanges, Unicode.whiteSpace]
    omega

theorem unitOfByte_nonneg (b : UInt8) : (0 : Exact N) ≤ Color.unitOfByte b := by
  unfold Color.unitOfByte
  positivity

theorem fontPoints_nonneg (n : Nat) : (0 : Exact N) ≤ Resolution.fontPoints n := by
  unfold Resolution.fontPoints
  rw [Exact.toPoints_eq]
  positivity

theorem notNumeral_lead : ∀ c ∈ "/Helv ".toList, isNumeral c = false := by decide

theorem operandsOf?_eq {operator : String} {text : List Char} {numerals : List (List Char)} {ds : List Decimal}
    (hfirst : firstMatch? (numeralsBefore? operator.toList n) text = some numerals)
    (hparse : numerals.mapM Decimal.parse? = some ds) :
    operandsOf? operator n text = some (ds.map (Scalar.ofDecimal : Decimal → Exact N)) := by
  simp only [operandsOf?, hfirst, Option.bind_eq_bind, Option.bind_some, hparse]
  exact List.mapM_pure

/-- The size that is read from a default appearance. -/
theorem operandsOf?_size (n : Nat) (c : Color) :
    operandsOf? "Tf" 1 (render (Resolution.fontPoints n : Exact N) c).toList =
      some [(Resolution.fontPoints n : Exact N)] := by
  have hsize := isNumeralOf_numberText (fontPoints_nonneg (N := N) n)
  obtain ⟨d, hparse, hread⟩ := hsize.read (N := N)
  have hfirst : firstMatch? (numeralsBefore? "Tf".toList 1)
      (render (Resolution.fontPoints n : Exact N) c).toList =
        some [(numberText (Resolution.fontPoints n : Exact N)).toList] := by
    rw [toList_render, firstMatch?_text notNumeral_lead]
    apply firstMatch?_here
    rw [numeralsBefore?_row hsize (by simp; rfl), numeralsBefore?, expectChars?_append]
    rfl
  have hnumbers : [(numberText (Resolution.fontPoints n : Exact N)).toList].mapM Decimal.parse? = some [d] := by
    simp [hparse]
  rw [operandsOf?_eq hfirst hnumbers, List.map_singleton, hread, value_fontPoints]

/-- The parts of a colour that are read from a default appearance. -/
theorem operandsOf?_color (n : Nat) (c : Color) : ∃ r g b : Exact N,
    operandsOf? "rg" 3 (render (Resolution.fontPoints n : Exact N) c).toList = some [r, g, b] ∧
      Color.ofUnits r g b = c := by
  have hsize := isNumeralOf_numberText (fontPoints_nonneg (N := N) n)
  have hred := isNumeralOf_numberText (unitOfByte_nonneg (N := N) c.red)
  have hgreen := isNumeralOf_numberText (unitOfByte_nonneg (N := N) c.green)
  have hblue := isNumeralOf_numberText (unitOfByte_nonneg (N := N) c.blue)
  obtain ⟨r, hr, hreadRed⟩ := hred.read (N := N)
  obtain ⟨g, hg, hreadGreen⟩ := hgreen.read (N := N)
  obtain ⟨b, hb, hreadBlue⟩ := hblue.read (N := N)
  have hfirst : firstMatch? (numeralsBefore? "rg".toList 3)
      (render (Resolution.fontPoints n : Exact N) c).toList =
        some [(numberText (Color.unitOfByte c.red : Exact N)).toList,
          (numberText (Color.unitOfByte c.green : Exact N)).toList,
          (numberText (Color.unitOfByte c.blue : Exact N)).toList] := by
    have hfont : ∀ rest, numeralsBefore? "rg".toList 2 ("Tf".toList ++ rest) = none := fun rest =>
      numeralsBefore?_none rfl
    have hsetting : ∀ e ∈ " Tf ".toList, isNumeral e = false := by decide
    have hjoin : ∀ rest, ' ' :: ("Tf".toList ++ ' ' :: rest) = " Tf ".toList ++ rest := fun rest => by simp
    rw [toList_render, firstMatch?_text notNumeral_lead, firstMatch?_row hsize (by simp; rfl) (hfont _), hjoin,
      firstMatch?_text hsetting]
    apply firstMatch?_here
    rw [numeralsBefore?_row hred (hgreen.head_dark _), numeralsBefore?_row hgreen (hblue.head_dark _),
      numeralsBefore?_row hblue (by simp; rfl)]
    rfl
  have hnumbers : [(numberText (Color.unitOfByte c.red : Exact N)).toList,
      (numberText (Color.unitOfByte c.green : Exact N)).toList,
      (numberText (Color.unitOfByte c.blue : Exact N)).toList].mapM Decimal.parse? = some [r, g, b] := by
    simp [hr, hg, hb]
  refine ⟨_, _, _, operandsOf?_eq hfirst hnumbers, ?_⟩
  rw [Color.ofUnits, byteOfUnit_value hreadRed, byteOfUnit_value hreadGreen, byteOfUnit_value hreadBlue]

/-- A default appearance is read with the size and the colour that it was written with. -/
theorem parse_render (n : Nat) (c : Color) :
    (parse (render (Resolution.fontPoints n : Exact N) c) : DefaultAppearance (Exact N)) =
      ⟨some (Resolution.fontPoints n), some c⟩ := by
  obtain ⟨r, g, b, hrgb, hc⟩ := operandsOf?_color (N := N) n c
  simp only [parse, operandsOf?_size, hrgb, Option.bind_some, List.head?_cons, hc]

end DefaultAppearance

end Marginalia
