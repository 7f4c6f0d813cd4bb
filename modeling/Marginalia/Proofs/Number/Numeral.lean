import Marginalia.Object.Printer
import Marginalia.Object.Reader

/-!
Numerals that are written in place, without an exponent, are read as the numbers that they were.
-/

namespace Marginalia

/-- The text in front of a negative number. -/
def signChars (negative : Bool) : List Char := if negative then ['-'] else []

/-- What may stand in front of the digits of a number, and whether it is negative then. -/
inductive SignText : Bool → List Char → Prop where
  | plain : SignText false []
  | plus : SignText false ['+']
  | minus : SignText true ['-']

theorem signText_signChars : ∀ negative, SignText negative (signChars negative)
  | false => .plain
  | true => .minus

namespace Decimal

theorem natOfDigits_eq {cs : List Char} (h : ∀ c ∈ cs, c.isDigit = true) :
    natOfDigits cs = Nat.ofDigitChars 10 cs 0 := by
  suffices hs : ∀ n, cs.foldl (fun n c => n * 10 + (digitValue? c).getD 0) n = Nat.ofDigitChars 10 cs n
    from hs 0
  induction cs with
  | nil => exact fun n => rfl
  | cons c cs ih =>
    intro n
    have hc : (digitValue? c).getD 0 = c.toNat - '0'.toNat := by simp [digitValue?, h c (by simp)]
    rw [List.foldl_cons, hc, ih (fun c' hc' => h c' (by simp [hc'])), Nat.mul_comm n 10,
      Nat.ofDigitChars_cons]

theorem isDigit_digitsOf {n : Nat} : ∀ c ∈ digitsOf n, c.isDigit = true :=
  fun _ hc => Nat.isDigit_of_mem_toDigits (by decide) (by decide) hc

theorem isDigit_zeros {k : Nat} : ∀ c ∈ List.replicate k '0', c.isDigit = true := by
  intro c hc
  rw [List.eq_of_mem_replicate hc]
  rfl

theorem isDigit_append {cs ds : List Char} (hc : ∀ c ∈ cs, c.isDigit = true)
    (hd : ∀ c ∈ ds, c.isDigit = true) : ∀ c ∈ cs ++ ds, c.isDigit = true := by
  intro c h
  rcases List.mem_append.mp h with h | h
  · exact hc c h
  · exact hd c h

/-- A numeral with decimal places: a whole part, and as many digits behind the point as places. -/
theorem positional_point {d : Decimal} (h : d.exponent < 0) :
    ∃ whole fraction : List Char, d.positional.toList = signChars d.negative ++ whole ++ '.' :: fraction ∧
      (∀ c ∈ whole, c.isDigit = true) ∧ (∀ c ∈ fraction, c.isDigit = true) ∧ whole ≠ [] ∧
      natOfDigits (whole ++ fraction) = d.digits ∧ -(fraction.length : Int) = d.exponent := by
  have hneg : ¬ 0 ≤ d.exponent := by omega
  let padded := List.replicate ((-d.exponent).toNat + 1 - (digitsOf d.digits).length) '0' ++
    digitsOf d.digits
  have hpad : ∀ c ∈ padded, c.isDigit = true := isDigit_append isDigit_zeros isDigit_digitsOf
  have hlen : (-d.exponent).toNat + 1 ≤ padded.length := by
    simp only [padded, List.length_append, List.length_replicate]
    omega
  refine ⟨padded.take (padded.length - (-d.exponent).toNat),
    padded.drop (padded.length - (-d.exponent).toNat), ?_, fun c hc => hpad c (List.mem_of_mem_take hc),
    fun c hc => hpad c (List.mem_of_mem_drop hc), ?_, ?_, ?_⟩
  · have hs : (if d.negative then "-" else "").toList = signChars d.negative := by
      cases d.negative <;> rfl
    simp only [positional, hneg, if_false, String.toList_append, String.toList_ofList, hs, padded,
      List.append_assoc]
  · intro hnil
    have := congrArg List.length hnil
    simp only [List.length_take, List.length_nil] at this
    omega
  · rw [List.take_append_drop, natOfDigits_eq hpad]
    simp only [padded, Nat.ofDigitChars_append, Nat.ofDigitChars_replicate_zero, Nat.mul_zero, digitsOf,
      Nat.ofDigitChars_ten_toDigits]
  · simp only [List.length_drop]
    omega

/-- The whole number that a numeral without decimal places stands for. -/
def whole (d : Decimal) : Int :=
  let n : Nat := d.digits * 10 ^ d.exponent.toNat
  if d.negative then -n else n

/-- A numeral without decimal places: its digits, with zeros behind them. -/
theorem positional_whole {d : Decimal} (h : 0 ≤ d.exponent) :
    ∃ ds : List Char, d.positional.toList = signChars d.negative ++ ds ∧
      (∀ c ∈ ds, c.isDigit = true) ∧ ds ≠ [] ∧ natOfDigits ds = d.digits * 10 ^ d.exponent.toNat := by
  have hs : (if d.negative then "-" else "").toList = signChars d.negative := by
    cases d.negative <;> rfl
  by_cases hz : d.digits = 0
  · refine ⟨['0'], ?_, by decide, by decide, ?_⟩
    · simp only [positional, h, hz, if_true, String.toList_append, hs]
      rfl
    · rw [hz, Nat.zero_mul]
      rfl
  · have hd : ∀ c ∈ digitsOf d.digits ++ List.replicate d.exponent.toNat '0', c.isDigit = true :=
      isDigit_append isDigit_digitsOf isDigit_zeros
    refine ⟨digitsOf d.digits ++ List.replicate d.exponent.toNat '0', ?_, hd, ?_, ?_⟩
    · simp only [positional, h, hz, if_true, if_false, String.toList_append, String.toList_ofList, hs]
    · simp [digitsOf, Nat.toDigits_ne_nil]
    · rw [natOfDigits_eq hd, Nat.ofDigitChars_append, Nat.ofDigitChars_replicate_zero, digitsOf,
        Nat.ofDigitChars_ten_toDigits, Nat.mul_comm]

theorem takeSign_text {negative : Bool} {sgn cs : List Char} (hs : SignText negative sgn)
    (h : ∀ c ∈ cs.head?, c ≠ '-' ∧ c ≠ '+') : takeSign (sgn ++ cs) = (negative, cs) := by
  cases hs with
  | plus | minus => rfl
  | plain =>
    rw [List.nil_append]
    unfold takeSign
    split
    · exact absurd rfl (h '-' rfl).1
    · exact absurd rfl (h '+' rfl).2
    · rfl

theorem takeWhile_digits {ds : List Char} (rest : List Char) (hd : ∀ c ∈ ds, c.isDigit = true)
    (hr : ∀ c ∈ rest.head?, c.isDigit = false) :
    (ds ++ rest).takeWhile Char.isDigit = ds ∧ (ds ++ rest).dropWhile Char.isDigit = rest := by
  induction ds with
  | nil =>
    cases rest with
    | nil => exact ⟨rfl, rfl⟩
    | cons c rest => simp [hr c rfl]
  | cons d ds ih =>
    obtain ⟨ht, hdrop⟩ := ih fun c hc => hd c (by simp [hc])
    simp [hd d (by simp), ht, hdrop]

/-- Neither a digit nor a point is a sign. -/
theorem no_sign {ds : List Char} (hd : ∀ c ∈ ds, c.isDigit = true) {rest : List Char}
    (hr : ∀ c ∈ rest.head?, c ≠ '-' ∧ c ≠ '+') : ∀ c ∈ (ds ++ rest).head?, c ≠ '-' ∧ c ≠ '+' := by
  cases ds with
  | nil => exact hr
  | cons d ds =>
    intro c hc
    obtain rfl : d = c := by simpa using hc
    have hdigit := hd d (by simp)
    constructor <;> (rintro rfl; exact absurd hdigit (by decide))

/-- Digits around a point are the decimal with those digits. -/
theorem parse?_point {negative : Bool} {sgn : List Char} (hs : SignText negative sgn)
    {whole fraction : List Char} (hw : ∀ c ∈ whole, c.isDigit = true)
    (hf : ∀ c ∈ fraction, c.isDigit = true) (hne : whole ++ fraction ≠ []) :
    parse? (sgn ++ whole ++ '.' :: fraction) =
      some ⟨negative, natOfDigits (whole ++ fraction), -(fraction.length : Int)⟩ := by
  obtain ⟨hwt, hwd⟩ := takeWhile_digits ('.' :: fraction) hw (by simp)
  obtain ⟨hft, hfd⟩ := takeWhile_digits [] hf (by simp)
  rw [List.append_nil] at hft hfd
  have hsign : ∀ c ∈ (whole ++ '.' :: fraction).head?, c ≠ '-' ∧ c ≠ '+' := no_sign hw (by simp)
  have he : (whole.isEmpty && fraction.isEmpty) = false := by simpa using hne
  simp only [parse?, List.append_assoc, takeSign_text hs hsign, hwt, hwd, hft,
    hfd, he, Bool.false_eq_true, if_false, parseExponent?, Option.map_some]
  simp

theorem parseInt?_digits {negative : Bool} {sgn ds : List Char} (hs : SignText negative sgn)
    (hd : ∀ c ∈ ds, c.isDigit = true) (hne : ds ≠ []) :
    parseInt? (sgn ++ ds) = some (if negative then -(natOfDigits ds : Int) else natOfDigits ds) := by
  have hsign : ∀ c ∈ ds.head?, c ≠ '-' ∧ c ≠ '+' := by
    simpa using no_sign hd (show ∀ c ∈ ([] : List Char).head?, c ≠ '-' ∧ c ≠ '+' by simp)
  have he : (ds.isEmpty || !ds.all Char.isDigit) = false := by
    simpa [hne] using hd
  simp only [parseInt?, takeSign_text hs hsign, he, Bool.false_eq_true, if_false]

end Decimal

end Marginalia
