import Mathlib

/-!
What rounding to binary64 does to the size of a number: it does not cross a power of two. A number is
given by a mantissa, an exponent and how the bits that were already cut off compare with half a unit.
-/

set_option autoImplicit false

open Float.Model Float.Model.UnpackedFloat

namespace NormalForm.Binary64

def scaled (mantissa : Nat) (exponent : Int) : Rat := mantissa * 2 ^ exponent

-- One if bits were cut off, so that the number lies below the next mantissa.
def slack : Accuracy → Nat
  | .exact => 0
  | .inexact _ => 1

theorem slack_le_one (accuracy : Accuracy) : slack accuracy ≤ 1 := by
  cases accuracy with
  | exact => exact Nat.zero_le 1
  | inexact place => exact Nat.le_refl 1

/-! Shifts. -/

theorem shift_mantissa (extended : ExtendedMantissa) (n : Nat) :
    (extended >>> n).mantissa = extended.mantissa / 2 ^ n := by
  induction n with
  | zero => exact (Nat.div_one _).symm
  | succ n ih =>
      change (extended >>> n).mantissa / 2 = _
      rw [ih, Nat.div_div_eq_div_mul, ← Nat.pow_succ]

theorem shift_round_bit (extended : ExtendedMantissa) (n : Nat) :
    (extended >>> (n + 1)).roundBit = (extended.mantissa / 2 ^ n % 2 != 0) := by
  change ((extended >>> n).mantissa % 2 != 0) = _
  rw [shift_mantissa]

theorem initial_mantissa (mantissa : Nat) (accuracy : Accuracy) :
    (ExtendedMantissa.ofMantissaAndAccuracy mantissa accuracy).mantissa = mantissa := by
  cases accuracy with
  | exact => rfl
  | inexact place => cases place <;> rfl

theorem mantissa_le_rounded (extended : ExtendedMantissa) : extended.mantissa ≤ extended.roundedMantissa := by
  obtain ⟨mantissa, roundBit, stickyBit⟩ := extended
  cases roundBit <;> cases stickyBit <;>
    simp [ExtendedMantissa.roundedMantissa, ExtendedMantissa.accuracy, Accuracy.roundToNearestEven]

theorem rounded_le_next (extended : ExtendedMantissa) : extended.roundedMantissa ≤ extended.mantissa + 1 := by
  obtain ⟨mantissa, roundBit, stickyBit⟩ := extended
  cases roundBit <;> cases stickyBit <;>
    simp [ExtendedMantissa.roundedMantissa, ExtendedMantissa.accuracy, Accuracy.roundToNearestEven]
  omega

theorem rounded_down (extended : ExtendedMantissa) (low : extended.roundBit = false) :
    extended.roundedMantissa = extended.mantissa := by
  obtain ⟨mantissa, roundBit, stickyBit⟩ := extended
  cases low
  cases stickyBit <;> rfl

-- Rounding reaches a mantissa `bound` only from half a unit below the next one.
theorem shifted_rounded_le (mantissa n bound : Nat) (accuracy : Accuracy)
    (close : 2 * (mantissa + slack accuracy) < (2 * bound + 1) * 2 ^ n) :
    (ExtendedMantissa.ofMantissaAndAccuracy mantissa accuracy >>> n).roundedMantissa ≤ bound := by
  cases n with
  | zero =>
      change (ExtendedMantissa.ofMantissaAndAccuracy mantissa accuracy).roundedMantissa ≤ bound
      have next := rounded_le_next (ExtendedMantissa.ofMantissaAndAccuracy mantissa accuracy)
      rw [initial_mantissa] at next
      cases accuracy with
      | exact =>
          change mantissa ≤ bound
          change 2 * (mantissa + 0) < _ at close
          omega
      | inexact place =>
          change 2 * (mantissa + 1) < _ at close
          omega
  | succ n =>
      have floor := shift_mantissa (ExtendedMantissa.ofMantissaAndAccuracy mantissa accuracy) (n + 1)
      have bit := shift_round_bit (ExtendedMantissa.ofMantissaAndAccuracy mantissa accuracy) n
      rw [initial_mantissa] at floor bit
      have unit : 0 < 2 ^ n := Nat.two_pow_pos n
      have whole : (2 * bound + 1) * 2 ^ (n + 1) = 2 * ((2 * bound + 1) * 2 ^ n) := by ring
      have halves : mantissa / 2 ^ n < 2 * bound + 1 := by
        apply (Nat.div_lt_iff_lt_mul unit).mpr
        omega
      have quotient : mantissa / 2 ^ (n + 1) = mantissa / 2 ^ n / 2 := by
        rw [Nat.pow_succ, Nat.div_div_eq_div_mul]
      by_cases odd : mantissa / 2 ^ n % 2 = 0
      · have low : (ExtendedMantissa.ofMantissaAndAccuracy mantissa accuracy >>> (n + 1)).roundBit = false := by
          rw [bit, odd]
          rfl
        rw [rounded_down _ low, floor]
        omega
      · have next := rounded_le_next (ExtendedMantissa.ofMantissaAndAccuracy mantissa accuracy >>> (n + 1))
        rw [floor] at next
        omega

theorem quotient_le_shifted_rounded (mantissa n : Nat) (accuracy : Accuracy) :
    mantissa / 2 ^ n ≤ (ExtendedMantissa.ofMantissaAndAccuracy mantissa accuracy >>> n).roundedMantissa := by
  have floor := mantissa_le_rounded (ExtendedMantissa.ofMantissaAndAccuracy mantissa accuracy >>> n)
  rwa [shift_mantissa, initial_mantissa] at floor

/-! Powers of two. -/

theorem two_pow_add (a b : Int) : (2 : Rat) ^ (a + b) = 2 ^ a * 2 ^ b := zpow_add₀ (by norm_num) a b

theorem two_pow_pos (exponent : Int) : (0 : Rat) < 2 ^ exponent := zpow_pos (by norm_num) exponent

theorem two_pow_le_iff (a b : Int) : (2 : Rat) ^ a ≤ 2 ^ b ↔ a ≤ b := zpow_le_zpow_iff_right₀ (by norm_num)

theorem two_pow_lt_iff (a b : Int) : (2 : Rat) ^ a < 2 ^ b ↔ a < b := zpow_lt_zpow_iff_right₀ (by norm_num)

theorem scaled_nonneg (mantissa : Nat) (exponent : Int) : 0 ≤ scaled mantissa exponent :=
  mul_nonneg (Nat.cast_nonneg mantissa) (two_pow_pos exponent).le

theorem scaled_mono (smaller larger : Nat) (exponent : Int) (le : smaller ≤ larger) :
    scaled smaller exponent ≤ scaled larger exponent :=
  mul_le_mul_of_nonneg_right (by exact_mod_cast le) (two_pow_pos exponent).le

theorem two_pow_le_scaled (mantissa : Nat) (exponent : Int) (positive : 0 < mantissa) :
    2 ^ exponent ≤ scaled mantissa exponent :=
  le_mul_of_one_le_left (two_pow_pos exponent).le (by exact_mod_cast positive)

-- Numbers on a grid compare with a power of two on it as their mantissas do.
theorem scaled_le_iff (mantissa power : Nat) (exponent : Int) :
    scaled mantissa exponent ≤ 2 ^ (exponent + power) ↔ mantissa ≤ 2 ^ power := by
  rw [scaled, two_pow_add, zpow_natCast, mul_comm, mul_le_mul_iff_right₀ (two_pow_pos exponent)]
  exact_mod_cast Iff.rfl

theorem le_scaled_iff (mantissa power : Nat) (exponent : Int) :
    2 ^ (exponent + power) ≤ scaled mantissa exponent ↔ 2 ^ power ≤ mantissa := by
  rw [scaled, two_pow_add, zpow_natCast, mul_comm, mul_le_mul_iff_left₀ (two_pow_pos exponent)]
  exact_mod_cast Iff.rfl

theorem leading_le_scaled (mantissa : Nat) (exponent : Int) (positive : 0 < mantissa) :
    (2 : Rat) ^ (exponent + mantissa.log2) ≤ scaled mantissa exponent :=
  (le_scaled_iff mantissa mantissa.log2 exponent).mpr (Nat.log2_self_le (by omega))

theorem scaled_lt_digits (mantissa digits : Nat) (exponent : Int) (few : mantissa < 2 ^ digits) :
    scaled mantissa exponent < 2 ^ (exponent + digits) :=
  not_le.mp fun large => absurd ((le_scaled_iff mantissa digits exponent).mp large) (by omega)

theorem scaled_lt_leading (mantissa : Nat) (exponent : Int) :
    scaled mantissa exponent < 2 ^ (exponent + mantissa.log2 + 1) := by
  have below := scaled_lt_digits mantissa (mantissa.log2 + 1) exponent Nat.lt_log2_self
  rwa [Nat.cast_succ, ← add_assoc] at below

/-! The first of the two shifts of a rounding. -/

-- The exponent to which a number is rounded.
def grid (mantissa : Nat) (exponent : Int) : Int :=
  max exponent (max (exponent + mantissa.log2 - 52) (-1074))

def rounded (mantissa : Nat) (exponent : Int) (accuracy : Accuracy) : Nat :=
  (ExtendedMantissa.ofMantissaAndAccuracy mantissa accuracy >>> (grid mantissa exponent - exponent).toNat).roundedMantissa

theorem target_eq (mantissa : Nat) (exponent : Int) :
    Format.binary64.targetExponent (totalExponent mantissa exponent) =
      max (exponent + mantissa.log2 - 52) (-1074) := by
  simp only [Format.targetExponent, totalExponent, Format.mantissaBits, Format.minExponent]
  norm_num
  omega

theorem shift_to_target_eq (mantissa : Nat) (exponent : Int) (accuracy : Accuracy) :
    shiftToTargetExponent Format.binary64 mantissa exponent accuracy =
      (ExtendedMantissa.ofMantissaAndAccuracy mantissa accuracy >>> (grid mantissa exponent - exponent).toNat,
        grid mantissa exponent) := by
  have shift : (max (exponent + mantissa.log2 - 52) (-1074) - exponent).toNat =
      (grid mantissa exponent - exponent).toNat := by
    rw [grid]
    omega
  have place : exponent + (grid mantissa exponent - exponent).toNat = grid mantissa exponent := by
    rw [grid]
    omega
  rw [shiftToTargetExponent, target_eq, shiftToExponent, shift, place]

theorem rounded_on_grid (mantissa : Nat) (exponent bound : Int) (accuracy : Accuracy)
    (below : grid mantissa exponent ≤ bound)
    (close : scaled (mantissa + slack accuracy) exponent < 2 ^ bound + 2 ^ (grid mantissa exponent - 1)) :
    scaled (rounded mantissa exponent accuracy) (grid mantissa exponent) ≤ 2 ^ bound := by
  obtain ⟨power, reach⟩ := Int.le.dest below
  obtain ⟨shift, place⟩ := Int.le.dest (show exponent ≤ grid mantissa exponent from le_max_left _ _)
  have amount : (grid mantissa exponent - exponent).toNat = shift := by omega
  rw [← reach, scaled_le_iff, rounded, amount]
  apply shifted_rounded_le
  rw [← reach, ← place, two_pow_add, add_sub_assoc, two_pow_add exponent, two_pow_add exponent, zpow_natCast,
    zpow_natCast, zpow_sub_one₀ (by norm_num), zpow_natCast, scaled] at close
  have scale := two_pow_pos exponent
  have numerators : (2 : Rat) * (mantissa + slack accuracy : Nat) < (2 * 2 ^ power + 1) * 2 ^ shift := by
    by_contra far
    have product := mul_le_mul_of_nonneg_right (not_lt.mp far) scale.le
    linarith
  exact_mod_cast numerators

-- A number may exceed a power of two by a quarter of the unit above it and is still rounded to the power.
theorem rounded_at_most (mantissa : Nat) (exponent bound : Int) (accuracy : Accuracy) (low : -1074 ≤ bound)
    (close : scaled (mantissa + slack accuracy) exponent ≤ 2 ^ bound + 2 ^ (bound - 54)) :
    scaled (rounded mantissa exponent accuracy) (grid mantissa exponent) ≤ 2 ^ bound := by
  have margin : (2 : Rat) ^ bound + 2 ^ (bound - 54) < 2 ^ (bound + 1) := by
    have small : (2 : Rat) ^ (bound - 54) < 2 ^ bound := (two_pow_lt_iff _ _).mpr (by omega)
    rw [two_pow_add, zpow_one]
    linarith
  cases total : mantissa + slack accuracy with
  | zero =>
      have none : rounded mantissa exponent accuracy ≤ 0 := by
        apply shifted_rounded_le
        rw [total]
        positivity
      rw [Nat.le_zero.mp none, scaled, Nat.cast_zero, zero_mul]
      exact (two_pow_pos bound).le
  | succ rest =>
      have unit : (2 : Rat) ^ exponent < 2 ^ (bound + 1) :=
        ((two_pow_le_scaled _ exponent (by omega)).trans close).trans_lt margin
      have exponentBelow := (two_pow_lt_iff _ _).mp unit
      have leading : exponent + mantissa.log2 ≤ bound := by
        cases mantissa with
        | zero => simp; omega
        | succ digits =>
            have reach := leading_le_scaled (digits + 1) exponent (Nat.succ_pos digits)
            have more := scaled_mono (digits + 1) _ exponent (Nat.le_add_right (digits + 1) (slack accuracy))
            have below := (two_pow_lt_iff _ _).mp ((reach.trans (more.trans close)).trans_lt margin)
            omega
      have below : grid mantissa exponent ≤ bound := by
        rw [grid]
        omega
      refine rounded_on_grid mantissa exponent bound accuracy below ?_
      by_cases within : scaled (mantissa + slack accuracy) exponent ≤ 2 ^ bound
      · exact within.trans_lt (lt_add_of_pos_right _ (two_pow_pos _))
      · -- Beyond the power of two the mantissa has all its digits, which gives the grid its exponent.
        obtain ⟨power, reach⟩ := Int.le.dest (show exponent ≤ bound by omega)
        have cut := slack_le_one accuracy
        rw [← reach, scaled_le_iff] at within
        have large : 2 ^ bound ≤ scaled mantissa exponent := by
          rw [← reach, le_scaled_iff]
          omega
        have digits := (two_pow_lt_iff _ _).mp (large.trans_lt (scaled_lt_leading mantissa exponent))
        have fine : (2 : Rat) ^ (bound - 54) < 2 ^ (grid mantissa exponent - 1) := by
          apply (two_pow_lt_iff _ _).mpr
          rw [grid]
          omega
        exact close.trans_lt (by linarith)

theorem rounded_at_least (mantissa : Nat) (exponent bound : Int) (accuracy : Accuracy) (low : -1074 ≤ bound)
    (large : 2 ^ bound ≤ scaled mantissa exponent) :
    2 ^ bound ≤ scaled (rounded mantissa exponent accuracy) (grid mantissa exponent) := by
  have positive : 0 < mantissa := by
    by_contra none
    rw [Nat.eq_zero_of_not_pos none, scaled, Nat.cast_zero, zero_mul] at large
    exact absurd large (two_pow_pos bound).not_ge
  have digits := (two_pow_lt_iff _ _).mp (large.trans_lt (scaled_lt_leading mantissa exponent))
  have quotient := quotient_le_shifted_rounded mantissa (grid mantissa exponent - exponent).toNat accuracy
  have finer : exponent ≤ grid mantissa exponent := le_max_left _ _
  by_cases below : grid mantissa exponent ≤ bound
  · obtain ⟨power, reach⟩ := Int.le.dest below
    rw [← reach, le_scaled_iff]
    refine Nat.le_trans ?_ quotient
    have whole : 2 ^ (power + (grid mantissa exponent - exponent).toNat) ≤ mantissa := by
      apply (le_scaled_iff mantissa _ exponent).mp
      have same : exponent + (power + (grid mantissa exponent - exponent).toNat : Nat) = bound := by omega
      rwa [same]
    rwa [Nat.le_div_iff_mul_le (Nat.two_pow_pos _), ← Nat.pow_add]
  · have some : 0 < rounded mantissa exponent accuracy := by
      refine Nat.lt_of_lt_of_le ?_ quotient
      apply Nat.div_pos _ (Nat.two_pow_pos _)
      have shift : (grid mantissa exponent - exponent).toNat ≤ mantissa.log2 := by
        rw [grid] at below ⊢
        omega
      exact (Nat.pow_le_pow_right (by decide) shift).trans (Nat.log2_self_le (by omega))
    exact ((two_pow_le_iff _ _).mpr (by omega)).trans (two_pow_le_scaled _ _ some)

/-! Numbers in the form in which binary64 holds them. -/

-- A sign and a size on the grid of binary64, which may still be too large to be held.
inductive Holds (sign : Sign) : Rat → UnpackedFloat → Prop where
  | zero : Holds sign 0 (.zero sign)
  | finite (mantissa : Nat) (exponent : Int) (positive : 0 < mantissa) (digits : mantissa < 2 ^ 53)
      (low : -1074 ≤ exponent) (full : 2 ^ 52 ≤ mantissa ∨ exponent = -1074) :
      Holds sign (scaled mantissa exponent) (.finite sign mantissa exponent positive)

theorem rounded_digits (mantissa : Nat) (exponent : Int) (accuracy : Accuracy) :
    rounded mantissa exponent accuracy ≤ 2 ^ 53 := by
  apply shifted_rounded_le
  have leading : mantissa < 2 ^ (mantissa.log2 + 1) := Nat.lt_log2_self
  have cut := slack_le_one accuracy
  have shift : mantissa.log2 + 1 ≤ 53 + (grid mantissa exponent - exponent).toNat := by
    rw [grid]
    omega
  have power : 2 ^ (mantissa.log2 + 1) ≤ 2 ^ 53 * 2 ^ (grid mantissa exponent - exponent).toNat := by
    rw [← Nat.pow_add]
    exact Nat.pow_le_pow_right (by decide) shift
  have unit := Nat.two_pow_pos (grid mantissa exponent - exponent).toNat
  calc 2 * (mantissa + slack accuracy) ≤ 2 * (2 ^ 53 * 2 ^ (grid mantissa exponent - exponent).toNat) := by omega
    _ < (2 * 2 ^ 53 + 1) * 2 ^ (grid mantissa exponent - exponent).toNat := by linarith

-- If the exponent is no higher than the grid asks for, the digits are all there.
theorem rounded_full (mantissa : Nat) (exponent : Int) (accuracy : Accuracy)
    (fine : exponent ≤ max (exponent + mantissa.log2 - 52) (-1074)) :
    2 ^ 52 ≤ rounded mantissa exponent accuracy ∨ grid mantissa exponent = -1074 := by
  by_cases least : grid mantissa exponent = -1074
  · exact .inr least
  · left
    refine Nat.le_trans ?_ (quotient_le_shifted_rounded mantissa (grid mantissa exponent - exponent).toNat accuracy)
    have digits : 52 + (grid mantissa exponent - exponent).toNat = mantissa.log2 := by
      rw [grid] at least ⊢
      omega
    have positive : mantissa ≠ 0 := by
      rintro rfl
      simp at digits
    rw [Nat.le_div_iff_mul_le (Nat.two_pow_pos _), ← Nat.pow_add, digits]
    exact Nat.log2_self_le positive

theorem grid_rests (mantissa : Nat) (exponent : Int) (digits : mantissa < 2 ^ 53) (low : -1074 ≤ exponent) :
    grid mantissa exponent = exponent := by
  have leading : mantissa.log2 ≤ 52 := by
    by_cases none : mantissa = 0
    · rw [none]
      decide
    · have bits := (Nat.log2_lt none).mpr digits
      omega
  rw [grid]
  omega

theorem shift_rests (mantissa : Nat) (exponent : Int) (digits : mantissa < 2 ^ 53) (low : -1074 ≤ exponent) :
    shiftToTargetExponent Format.binary64 mantissa exponent .exact = (⟨mantissa, false, false⟩, exponent) := by
  rw [shift_to_target_eq, grid_rests mantissa exponent digits low, sub_self]
  rfl

theorem shift_carries (exponent : Int) (low : -1074 ≤ exponent) :
    shiftToTargetExponent Format.binary64 (2 ^ 53) exponent .exact = (⟨2 ^ 52, false, false⟩, exponent + 1) := by
  have place : grid (2 ^ 53) exponent = exponent + 1 := by
    rw [grid, Nat.log2_two_pow]
    omega
  rw [shift_to_target_eq, place, add_sub_cancel_left]
  rfl

theorem round_holds (sign : Sign) (mantissa : Nat) (exponent : Int) (accuracy : Accuracy)
    (fine : exponent ≤ max (exponent + mantissa.log2 - 52) (-1074)) :
    Holds sign (scaled (rounded mantissa exponent accuracy) (grid mantissa exponent))
      (roundWithAccuracy Format.binary64 sign mantissa exponent accuracy) := by
  have digits := rounded_digits mantissa exponent accuracy
  have full := rounded_full mantissa exponent accuracy fine
  have low : -1074 ≤ grid mantissa exponent := (le_max_right _ _).trans (le_max_right _ _)
  have unfolded : roundWithAccuracy Format.binary64 sign mantissa exponent accuracy =
      if h : (shiftToTargetExponent Format.binary64 (rounded mantissa exponent accuracy) (grid mantissa exponent)
          .exact).1.mantissa = 0 then .zero sign
      else .finite sign (shiftToTargetExponent Format.binary64 (rounded mantissa exponent accuracy)
          (grid mantissa exponent) .exact).1.mantissa (shiftToTargetExponent Format.binary64
          (rounded mantissa exponent accuracy) (grid mantissa exponent) .exact).2 (Nat.pos_of_ne_zero h) := by
    rw [roundWithAccuracy, shift_to_target_eq mantissa exponent accuracy]
    rfl
  rw [unfolded]
  by_cases carried : rounded mantissa exponent accuracy = 2 ^ 53
  · rw [carried, shift_carries _ low]
    have size : scaled (2 ^ 53) (grid mantissa exponent) = scaled (2 ^ 52) (grid mantissa exponent + 1) := by
      rw [scaled, scaled, two_pow_add, zpow_one]
      push_cast
      ring
    rw [size]
    exact .finite (2 ^ 52) (grid mantissa exponent + 1) (by decide) (by decide) (by omega) (.inl (Nat.le_refl _))
  · rw [shift_rests _ _ (by omega) low]
    by_cases none : rounded mantissa exponent accuracy = 0
    · rw [dif_pos none, none, scaled, Nat.cast_zero, zero_mul]
      exact .zero
    · rw [dif_neg none]
      exact .finite _ _ _ (by omega) low full

end NormalForm.Binary64
