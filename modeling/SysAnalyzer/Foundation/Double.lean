import Mathlib

/-!
# The double nearest to a value

Number literals denote rationals; a program that stores them as doubles keeps
the nearest one, the even one of two.  Integers below 2^53 are kept as they are.
-/

namespace SysAnalyzer.Foundation

/-- A double that is not a NaN; the two zeros are not told apart. -/
inductive Number where
  | finite (value : ℚ)
  | infinity (negative : Bool)
  deriving DecidableEq

namespace Number

/-- Whether a double is less than another. -/
def less : Number → Number → Bool
  | finite first, finite second => decide (first < second)
  | finite _, infinity negative => !negative
  | infinity negative, finite _ => negative
  | infinity negative, infinity other => negative && !other

def roundHalfEven (value : ℚ) : ℤ :=
  if value - ⌊value⌋ < 1 / 2 then ⌊value⌋
  else if 1 / 2 < value - ⌊value⌋ then ⌊value⌋ + 1
  else if ⌊value⌋ % 2 = 0 then ⌊value⌋
  else ⌊value⌋ + 1

def lastPlace (value : ℚ) : ℤ := max (Int.log 2 |value| - 52) (-1074)

def ofRat (value : ℚ) : Number :=
  let rounded : ℚ := roundHalfEven (value / 2 ^ lastPlace value) * 2 ^ lastPlace value
  if 2 ^ 1024 ≤ |rounded| then .infinity (value < 0) else .finite rounded

theorem roundHalfEven_intCast (value : ℤ) : roundHalfEven value = value := by simp [roundHalfEven]

theorem lastPlace_nonpos {value : ℤ} (small : value.natAbs < 2 ^ 53) :
    lastPlace (value : ℚ) ≤ 0 := by
  have size : |(value : ℚ)| = (value.natAbs : ℚ) := by rw [Nat.cast_natAbs, Int.cast_abs]
  have log : Int.log 2 |(value : ℚ)| ≤ 52 := by
    rw [size, Int.log_natCast]
    have bound : Nat.log 2 value.natAbs < 53 := by
      rcases Nat.eq_zero_or_pos value.natAbs with zero | positive
      · simp [zero]
      · exact Nat.log_lt_of_lt_pow (by omega) small
    omega
  unfold lastPlace
  omega

theorem ofRat_intCast {value : ℤ} (small : value.natAbs < 2 ^ 53) :
    ofRat (value : ℚ) = .finite value := by
  rcases Int.eq_ofNat_of_zero_le
    (Int.neg_nonneg_of_nonpos (lastPlace_nonpos small)) with ⟨places, equation⟩
  have place : lastPlace (value : ℚ) = -(places : ℤ) := by omega
  have scaled : (value : ℚ) / 2 ^ lastPlace (value : ℚ) = ((value * 2 ^ places : ℤ) : ℚ) := by
    rw [place, zpow_neg, zpow_natCast, div_inv_eq_mul]
    push_cast
    rfl
  have back : ((value * 2 ^ places : ℤ) : ℚ) * 2 ^ lastPlace (value : ℚ) = value := by
    rw [place, zpow_neg, zpow_natCast]
    push_cast
    field_simp
  have bounded : ¬ (2 : ℚ) ^ 1024 ≤ |(value : ℚ)| := by
    have size : |(value : ℚ)| = (value.natAbs : ℚ) := by rw [Nat.cast_natAbs, Int.cast_abs]
    have below : (value.natAbs : ℚ) < 2 ^ 53 := by exact_mod_cast small
    have grow : (2 : ℚ) ^ 53 ≤ 2 ^ 1024 := by exact pow_le_pow_right₀ (by norm_num) (by norm_num)
    rw [size]
    exact not_le.2 (lt_of_lt_of_le below grow)
  simp only [ofRat, scaled, roundHalfEven_intCast, back, bounded, if_false]

end Number

end SysAnalyzer.Foundation
