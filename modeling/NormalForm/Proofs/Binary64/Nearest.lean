import NormalForm.Proofs.Binary64.Sizes

/-!
The size of the number nearest to a rational. The grid on which a quotient has 53 binary digits lies no
higher than the size of the quotient asks for, so that the number stays within four times that size.
-/

set_option autoImplicit false

open Float.Model Float.Model.UnpackedFloat

namespace NormalForm.Binary64

/-! The bits of a quotient. -/

theorem quotient_lt (n d : Nat) (divisor : 0 < d) : (n : Rat) < d * 2 ^ ((n.log2 : Int) - d.log2 + 1) := by
  have above : (n : Rat) < 2 ^ ((n.log2 : Int) + 1) := by
    have digits := Nat.lt_log2_self (n := n)
    exact_mod_cast digits
  have below : (2 : Rat) ^ (d.log2 : Int) ≤ d := by
    have digits := Nat.log2_self_le divisor.ne'
    exact_mod_cast digits
  have same : (d.log2 : Int) + ((n.log2 : Int) - d.log2 + 1) = n.log2 + 1 := by omega
  rw [← same, two_pow_add] at above
  exact above.trans_le (mul_le_mul_of_nonneg_right below (two_pow_pos _).le)

-- The exponent of a quotient, as it is found from the numbers of digits and one comparison.
theorem grid_exponent_eq (n d : Nat) (divisor : 0 < d) :
    ∃ exponent : Int, gridExponent n d = (exponent - 52 + 1074).toNat ∧
      exponent ≤ (n.log2 : Int) - d.log2 ∧ (n : Rat) < d * 2 ^ (exponent + 1) := by
  have above := quotient_lt n d divisor
  rw [gridExponent]
  generalize (n.log2 : Int) - (d.log2 : Int) = estimate at above
  generalize compared : (if 0 ≤ estimate then decide (n < d * Nat.pow 2 estimate.toNat)
    else decide (n * Nat.pow 2 (-estimate).toNat < d)) = tooLarge
  cases tooLarge with
  | false => exact ⟨estimate, rfl, le_refl _, above⟩
  | true =>
      refine ⟨estimate - 1, rfl, by omega, ?_⟩
      rw [Int.sub_add_cancel]
      split at compared
      · rename_i upward
        obtain ⟨k, rfl⟩ := Int.eq_ofNat_of_zero_le upward
        have less : n < d * 2 ^ k := of_decide_eq_true compared
        exact_mod_cast less
      · have power : estimate = -((-estimate).toNat : Int) := by omega
        have less : n * 2 ^ (-estimate).toNat < d := of_decide_eq_true compared
        rw [power, zpow_neg, ← div_eq_mul_inv, lt_div_iff₀ (two_pow_pos _)]
        exact_mod_cast less

-- On its grid a quotient has no more than 53 digits.
theorem grid_exponent_covers (n d : Nat) (divisor : 0 < d) :
    (n : Rat) < d * 2 ^ ((gridExponent n d : Int) - 1074 + 53) := by
  obtain ⟨exponent, same, -, below⟩ := grid_exponent_eq n d divisor
  have reach : (2 : Rat) ^ (exponent + 1) ≤ 2 ^ ((gridExponent n d : Int) - 1074 + 53) :=
    (two_pow_le_iff _ _).mpr (by omega)
  exact below.trans_le (mul_le_mul_of_nonneg_left reach (Nat.cast_nonneg d))

theorem round_quotient_le (n d bound : Nat) (below : n < d * bound) : roundQuotient n d ≤ bound := by
  have quotient := Nat.div_lt_of_lt_mul below
  rw [roundQuotient]
  split <;> omega

theorem quotient_bits_le (n d : Nat) (divisor : 0 < d) :
    quotientBits n d ≤ (gridExponent n d + 2) * 2 ^ 52 := by
  have covers := grid_exponent_covers n d divisor
  rw [quotientBits]
  generalize gridExponent n d = exponent at covers
  refine (Nat.min_le_left _ _).trans ?_
  have carried : (exponent + 2) * 2 ^ 52 = exponent * Nat.pow 2 52 + 2 ^ 53 := by
    rw [Nat.add_mul]
    rfl
  rw [carried]
  refine Nat.add_le_add_left ?_ _
  split
  · rename_i upward
    have power : (exponent : Int) - 1074 = (exponent - 1074 : Nat) := by omega
    apply round_quotient_le
    rw [power, two_pow_add, ← mul_assoc] at covers
    exact_mod_cast covers
  · rename_i downward
    have power : (exponent : Int) - 1074 + 53 = 53 - (1074 - exponent : Nat) := by omega
    apply round_quotient_le
    rw [power, zpow_sub₀ two_ne_zero, mul_div_assoc', lt_div_iff₀ (two_pow_pos _)] at covers
    exact_mod_cast covers

theorem grid_exponent_le (n d power : Nat) (positive : 0 < n) (divisor : 0 < d) (small : n ≤ d * 2 ^ power) :
    gridExponent n d ≤ power + 1022 := by
  obtain ⟨exponent, same, below, -⟩ := grid_exponent_eq n d divisor
  have digits : n.log2 ≤ d.log2 + power := by
    rw [← log2_shift d power divisor, Nat.shiftLeft_eq, Nat.le_log2 (Nat.mul_pos divisor (Nat.two_pow_pos _)).ne']
    exact (Nat.log2_self_le positive.ne').trans small
  omega

theorem nearest_bits_le (value : Rat) (power : Nat) (small : |value| ≤ 2 ^ power) :
    nearestBits value < 2 ^ 64 ∧ nearestBits value % 2 ^ 63 ≤ (power + 1024) * 2 ^ 52 := by
  rw [nearestBits]
  split
  · exact ⟨by decide, Nat.zero_le _⟩
  · rename_i nonzero
    have positive : 0 < value.num.natAbs := Int.natAbs_pos.mpr nonzero
    have bounded : value.num.natAbs ≤ value.den * 2 ^ power := by
      have den : (0 : Rat) < value.den := by exact_mod_cast value.den_pos
      have whole := mul_le_mul_of_nonneg_right small den.le
      rw [← abs_of_pos den, ← abs_mul, abs_of_pos den, Rat.mul_den_eq_num, ← Int.cast_abs, Int.abs_eq_natAbs,
        mul_comm] at whole
      exact_mod_cast whole
    have exponent := grid_exponent_le _ _ power positive value.den_pos bounded
    have magnitude := quotient_bits_le value.num.natAbs value.den value.den_pos
    have finite : quotientBits value.num.natAbs value.den ≤ 0x7FF * 2 ^ 52 := Nat.min_le_right _ _
    generalize quotientBits value.num.natAbs value.den = bits at magnitude finite
    have sign : signBit = 2 ^ 63 := rfl
    have reach := magnitude.trans (Nat.mul_le_mul_right (2 ^ 52) (Nat.add_le_add_right exponent 2))
    rw [sign]
    by_cases negative : value.num < 0
    · rw [if_pos negative]
      omega
    · rw [if_neg negative]
      omega

/-! The number of the bits. -/

theorem unpack_exponent_eq (bits : BitVec 64) :
    (@unpackExponent Format.binary64 bits).toNat = bits.toNat % 2 ^ 63 / 2 ^ 52 := by
  have shifted : (@unpackExponent Format.binary64 bits).toNat = (bits.toNat >>> 52) % 2 ^ 11 := rfl
  rw [shifted, Nat.shiftRight_eq_div_pow]
  omega

-- Twice two, for what rounding can add and for what the field of the exponent leaves open.
theorem nearest_at_most (value : Rat) (power : Nat) (high : power ≤ 1021) (small : |value| ≤ 2 ^ power) :
    AtMost (power + 2) (nearest value) := by
  obtain ⟨word, low⟩ := nearest_bits_le value power small
  let bits : UInt64 := (nearestBits value).toUInt64
  have same : bits.toBitVec.toNat = nearestBits value := by
    change (nearestBits value).toUInt64.toNat = _
    rw [Nat.toUInt64, UInt64.toNat_ofNat']
    exact Nat.mod_eq_of_lt word
  have field : (@unpackExponent Format.binary64 bits.toBitVec).toNat ≤ power + 1024 := by
    rw [unpack_exponent_eq, same]
    omega
  obtain ⟨sign, size, holds, below⟩ := unpack_number bits.toBitVec (by omega)
  refine held_at_most _ _ (rfl : parts (nearest value) = held (UnpackedFloat.unpack Format.binary64 bits.toBitVec)) sign
    size holds _ (by omega) (below.le.trans ((two_pow_le_iff _ _).mpr (by omega)))

end NormalForm.Binary64
