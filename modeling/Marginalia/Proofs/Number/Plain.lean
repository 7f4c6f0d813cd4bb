import Mathlib.Data.Rat.Sqrt
import Marginalia.Proofs.Number.Exact

/-!
Numerals for all rational numbers. A number with up to three decimals is written as it is usually written;
any other one is written as its numerator, with its denominator told by the number of places.
-/

namespace Marginalia

namespace Numerals

/-- The numerator at so many places that the denominator can be told from them. -/
def coded (q : ℚ) : Decimal := ⟨q.num < 0, q.num.natAbs, -((3 + q.den : Nat) : Int)⟩

/-- A number whose denominator divides a power of ten. -/
def short (places : Nat) (q : ℚ) : Decimal :=
  ⟨q.num < 0, q.num.natAbs * (10 ^ places / q.den), -(places : Int)⟩

def plainWrite (q : ℚ) : Decimal :=
  if q.den = 1 then if inWordRange q.num then ⟨q.num < 0, q.num.natAbs, 0⟩ else coded q
  else if 10 % q.den = 0 then short 1 q
  else if 100 % q.den = 0 then short 2 q
  else if 1000 % q.den = 0 then short 3 q
  else coded q

def plainRead (d : Decimal) : ℚ :=
  if -3 ≤ d.exponent then d.value
  else (if d.negative then -(d.digits : ℚ) else d.digits) / ((-d.exponent - 3).toNat : ℚ)

theorem signed_natAbs (n : Int) : (if n < 0 then -(n.natAbs : ℚ) else n.natAbs) = n := by
  split
  · rename_i h
    rw [Nat.cast_natAbs, abs_of_neg h]
    push_cast
    ring
  · rename_i h
    rw [Nat.cast_natAbs, abs_of_nonneg (not_lt.mp h)]

theorem plainRead_coded (q : ℚ) : plainRead (coded q) = q := by
  have hden := q.den_pos
  have hlong : ¬ (-3 : Int) ≤ -((3 + q.den : Nat) : Int) := by omega
  have hplaces : (-(-((3 + q.den : Nat) : Int)) - 3).toNat = q.den := by omega
  simp only [plainRead, coded, hlong, if_false, decide_eq_true_eq, signed_natAbs, hplaces]
  exact Rat.num_div_den q

theorem value_short {places : Nat} (hp : 0 < places) {q : ℚ} (h : 10 ^ places % q.den = 0) :
    (short places q).value = q := by
  obtain ⟨c, hc⟩ := Nat.dvd_of_mod_eq_zero h
  have hdiv : 10 ^ places / q.den = c := by rw [hc, Nat.mul_div_cancel_left _ q.den_pos]
  have hden : (q.den : ℚ) ≠ 0 := by exact_mod_cast q.den_nz
  have hc0 : (c : ℚ) ≠ 0 := by
    intro h0
    have h0 : c = 0 := by exact_mod_cast h0
    rw [h0, Nat.mul_zero] at hc
    exact absurd hc (by positivity)
  have hpow : ((10 ^ places : Nat) : ℚ) = q.den * c := by
    rw [hc]
    push_cast
    rfl
  have hmagnitude : (short places q).magnitude = (q.num.natAbs : ℚ) / q.den := by
    have hneg : ¬ (0 : Int) ≤ -(places : Int) := by omega
    unfold Decimal.magnitude short
    simp only [hneg, if_false, neg_neg, Int.toNat_natCast, hdiv]
    rw [Rat.mkRat_eq_div, Int.cast_natCast, hpow]
    push_cast
    field_simp
  have hsign := signed_natAbs q.num
  unfold Decimal.value
  rw [hmagnitude]
  simp only [short, decide_eq_true_eq]
  split
  · rename_i hneg
    rw [if_pos hneg] at hsign
    rw [← neg_div, hsign, Rat.num_div_den]
  · rename_i hneg
    rw [if_neg hneg] at hsign
    rw [hsign, Rat.num_div_den]

theorem plainRead_short {places : Nat} (hp : 0 < places) (hle : places ≤ 3) {q : ℚ}
    (h : 10 ^ places % q.den = 0) : plainRead (short places q) = q := by
  have hshort : -3 ≤ (short places q).exponent := by
    simp only [short]
    omega
  rw [plainRead, if_pos hshort, value_short hp h]

/-- How a number is written: whole, with few places, or coded. -/
theorem plainWrite_cases (q : ℚ) :
    (plainWrite q = ⟨q.num < 0, q.num.natAbs, 0⟩ ∧ q.den = 1 ∧ inWordRange q.num = true) ∨
      ((plainWrite q).exponent < 0 ∧ plainRead (plainWrite q) = q) := by
  have hcoded : (coded q).exponent < 0 := by
    simp only [coded]
    omega
  have hshort : ∀ places, 0 < places → (short places q).exponent < 0 := by
    intro places hp
    simp only [short]
    omega
  unfold plainWrite
  split
  · rename_i hden
    split
    · rename_i hn
      exact .inl ⟨rfl, hden, hn⟩
    · exact .inr ⟨hcoded, plainRead_coded q⟩
  · right
    split
    · rename_i h
      exact ⟨hshort 1 (by decide), plainRead_short (by decide) (by decide) h⟩
    · split
      · rename_i h
        exact ⟨hshort 2 (by decide), plainRead_short (by decide) (by decide) h⟩
      · split
        · rename_i h
          exact ⟨hshort 3 (by decide), plainRead_short (by decide) (by decide) h⟩
        · exact ⟨hcoded, plainRead_coded q⟩

def plainRoot (q : ℚ) : ℚ := if q = 1 then 1 else Rat.sqrt q

/-- The usual numerals, and coded ones for what they cannot write. -/
def plain : Numerals where
  write := plainWrite
  read := plainRead
  root := plainRoot
  places := 3
  three_le_places := Nat.le_refl 3
  read_short d h := if_pos h
  read_write q h := by
    rcases plainWrite_cases q with ⟨hw, -, -⟩ | ⟨-, hr⟩
    · rw [hw] at h
      exact absurd h (lt_irrefl _)
    · exact hr
  write_whole q h := by
    rcases plainWrite_cases q with ⟨hw, hden, hn⟩ | ⟨hneg, -⟩
    · refine ⟨q.num, hn, ?_, ((Rat.den_eq_one_iff q).mp hden).symm⟩
      rw [hw]
      have hsign := signed_natAbs q.num
      simpa [Decimal.value, Decimal.magnitude] using hsign
    · exact absurd h (not_le.mpr hneg)
  root_square q h := by
    unfold plainRoot
    split
    · rename_i hq
      nlinarith
    · rw [Rat.sqrt_eq, abs_of_nonneg h]

end Numerals

end Marginalia
