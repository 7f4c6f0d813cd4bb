import Mathlib.Algebra.Order.Field.Rat
import Mathlib.Tactic.FieldSimp
import Mathlib.Tactic.Linarith
import Mathlib.Tactic.Positivity
import Mathlib.Tactic.Ring
import Marginalia.Number.Scalar

/-!
Rounding to the nearest integer and to a number of decimal places. Whichever way a tie goes, what is rounded
is at most half a step away, so that a value less than half a step from an integer is rounded to it.
-/

namespace Marginalia

theorem abs_roundDiv_sub_le (tie : TieRule) (num : Nat) {den : Nat} (hden : 0 < den) :
    |(roundDiv tie num den : ℚ) - num / den| ≤ 1 / 2 := by
  have hpos : (0 : ℚ) < den := by exact_mod_cast hden
  have hsplit : (num : ℚ) = den * (num / den : Nat) + (num % den : Nat) := by
    exact_mod_cast (Nat.div_add_mod num den).symm
  have hquotient : (num : ℚ) / den = (num / den : Nat) + (num % den : Nat) / den := by
    rw [hsplit]
    field_simp
  have hround : roundDiv tie num den = num / den ∧ 2 * (num % den) ≤ den ∨
      roundDiv tie num den = num / den + 1 ∧ den ≤ 2 * (num % den) := by
    unfold roundDiv
    rcases lt_trichotomy (2 * (num % den)) den with hlow | htie | hhigh
    · exact .inl ⟨if_pos hlow, hlow.le⟩
    · simp only [htie, lt_irrefl, if_false]
      cases tie with
      | away => exact .inr ⟨rfl, le_refl _⟩
      | toEven =>
        by_cases heven : num / den % 2 = 0
        · exact .inl ⟨if_pos heven, le_refl _⟩
        · exact .inr ⟨if_neg heven, le_refl _⟩
    · exact .inr ⟨by simp only [hhigh.not_gt, hhigh, if_false, if_true], hhigh.le⟩
  have hrest : ((num % den : Nat) : ℚ) / den ≤ 1 := by
    rw [div_le_one hpos]
    exact_mod_cast (Nat.mod_lt num hden).le
  have hnonneg : (0 : ℚ) ≤ ((num % den : Nat) : ℚ) / den := by positivity
  rw [hquotient, abs_le]
  rcases hround with ⟨hr, hle⟩ | ⟨hr, hge⟩
  · have hhalf : ((num % den : Nat) : ℚ) / den ≤ 1 / 2 := by
      rw [div_le_div_iff₀ hpos two_pos]
      exact_mod_cast (by omega : num % den * 2 ≤ 1 * den)
    rw [hr]
    constructor <;> linarith
  · have hhalf : (1 : ℚ) / 2 ≤ ((num % den : Nat) : ℚ) / den := by
      rw [div_le_div_iff₀ two_pos hpos]
      exact_mod_cast (by omega : 1 * den ≤ num % den * 2)
    rw [hr]
    push_cast
    constructor <;> linarith

theorem roundDiv_of_near {tie : TieRule} {num den n : Nat} (hden : 0 < den)
    (h : |(num : ℚ) / den - n| < 1 / 2) : roundDiv tie num den = n := by
  have hnear := abs_roundDiv_sub_le tie num hden
  have hless : |((roundDiv tie num den : ℤ) : ℚ) - (n : ℤ)| < 1 := by
    have hsum := abs_add_le ((roundDiv tie num den : ℚ) - num / den) ((num : ℚ) / den - n)
    rw [sub_add_sub_cancel] at hsum
    push_cast
    linarith
  have hint : |(roundDiv tie num den : ℤ) - n| < 1 := by exact_mod_cast hless
  rw [Int.abs_lt_one_iff] at hint
  omega

theorem natAbs_num_div_den (q : ℚ) : (q.num.natAbs : ℚ) / q.den = |q| := by
  rw [Rat.abs_def, Rat.divInt_eq_div, Int.cast_natCast, Int.cast_natCast]

namespace Extended

/-- A value less than a half away from a number in range is rounded to that number. -/
theorem roundWithin_of_near {negative : Bool} {q : ℚ} {n : Nat} {hi : Int} (h : |q - n| < 1 / 2)
    (hn : (n : Int) ≤ hi) : (finite negative q).roundWithin 0 hi = n := by
  have hround : roundDiv .away q.num.natAbs q.den = n := by
    apply roundDiv_of_near q.den_pos
    rw [natAbs_num_div_den]
    have habs := abs_abs_sub_abs_le q n
    rw [Nat.abs_cast] at habs
    exact lt_of_le_of_lt habs h
  have hsign : q < 0 → n = 0 := by
    intro hq
    by_contra hne
    have hone : (1 : ℚ) ≤ n := by exact_mod_cast Nat.one_le_iff_ne_zero.mpr hne
    rw [abs_lt] at h
    linarith
  simp only [roundWithin, hround]
  split
  · rename_i hq
    rw [hsign hq] at hn ⊢
    omega
  · omega

end Extended

namespace Decimal

theorem value_places (digits : Nat) {places : Nat} (hp : 0 < places) :
    (Decimal.mk false digits (-(places : Int))).value = (digits : ℚ) / 10 ^ places := by
  have hneg : ¬ (0 : Int) ≤ -(places : Int) := by omega
  simp only [value, Bool.false_eq_true, if_false, magnitude, hneg, neg_neg, Int.toNat_natCast,
    Rat.mkRat_eq_div]
  push_cast
  rfl

/-- A value is at most half a unit of the last decimal place away from what it is rounded to. -/
theorem abs_value_ofRat_sub_le {places : Nat} (hp : 0 < places) {q : ℚ} (hq : 0 ≤ q) :
    |(ofRat places false q).value - q| ≤ 1 / (2 * 10 ^ places) := by
  have hpow : (0 : ℚ) < 10 ^ places := by positivity
  have hnear := abs_roundDiv_sub_le .toEven (q.num.natAbs * 10 ^ places) q.den_pos
  have hquotient : ((q.num.natAbs * 10 ^ places : Nat) : ℚ) / q.den = q * 10 ^ places := by
    push_cast
    rw [mul_div_right_comm, natAbs_num_div_den, abs_of_nonneg hq]
  rw [hquotient] at hnear
  rw [ofRat, value_places _ hp]
  generalize (roundDiv .toEven (q.num.natAbs * 10 ^ places) q.den : ℚ) = r at hnear
  have hscaled : r / 10 ^ places - q = (r - q * 10 ^ places) / 10 ^ places := by field_simp
  rw [hscaled, abs_div, abs_of_pos hpow, div_le_div_iff₀ hpow (by positivity)]
  nlinarith

/-- A value with no more decimal places than are asked for stays as it is. -/
theorem value_ofRat_of_whole {places : Nat} (hp : 0 < places) {q : ℚ} (hq : 0 ≤ q) {m : Nat}
    (h : q * 10 ^ places = m) : (ofRat places false q).value = q := by
  have hpow : (10 : ℚ) ^ places ≠ 0 := by positivity
  have hround : roundDiv .toEven (q.num.natAbs * 10 ^ places) q.den = m := by
    apply roundDiv_of_near q.den_pos
    push_cast
    rw [mul_div_right_comm, natAbs_num_div_den, abs_of_nonneg hq, h, sub_self, abs_zero]
    norm_num
  rw [ofRat, value_places _ hp, hround, ← h]
  field_simp

end Decimal

end Marginalia
