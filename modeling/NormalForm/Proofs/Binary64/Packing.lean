import NormalForm.Proofs.Binary64.Rounding

/-!
Binary64 numbers taken apart and put together again. Taking apart gives a number on the grid, and putting
together loses nothing but a size of `2 ^ 1024` or more, which becomes infinite.
-/

set_option autoImplicit false

open Float.Model Float.Model.UnpackedFloat

namespace NormalForm.Binary64

def parts (x : Float) : UnpackedFloat := x.toModel.unpack

theorem parts_injective (x y : Float) (same : parts x = parts y) : x = y := by
  have packed (z : Float) : UnpackedFloat.pack Format.binary64 (parts z) = z.toBits.toBitVec :=
    pack_unpack_of_valid z.toModel.valid
  have bits : x.toBits.toBitVec = y.toBits.toBitVec := by rw [← packed x, same, packed y]
  exact Float.toBits_inj.mp (UInt64.toBitVec_inj.mp bits)

-- What is left of a result when it is held as a number.
def held (result : UnpackedFloat) : UnpackedFloat := (Float.Model.pack result).unpack

theorem unpack_sign (sign : Sign) (exponent : BitVec 11) (mantissa : BitVec 52) :
    Sign.ofBitVec (unpackSign (packComponents Format.binary64 sign exponent mantissa)) = sign := by
  rw [unpackSign_packComponents, Sign.ofBitVec_toBitVec]

theorem one_append (mantissa : BitVec 52) : (1#1 ++ mantissa).toNat = 2 ^ 52 + mantissa.toNat := by
  rw [BitVec.toNat_append, ← Nat.shiftLeft_add_eq_or_of_lt mantissa.isLt]
  rfl

theorem held_infinity (sign : Sign) : held (.infinity sign) = .infinity sign := by
  cases sign with
  | negative => rfl
  | positive => rfl

theorem held_not_a_number : held .notANumber = .notANumber := rfl

theorem held_zero (sign : Sign) : held (.zero sign) = .zero sign := by
  cases sign with
  | negative => rfl
  | positive => rfl

theorem pack_finite (sign : Sign) (mantissa : Nat) (exponent : Int) (positive : 0 < mantissa) :
    UnpackedFloat.pack Format.binary64 (.finite sign mantissa exponent positive) =
      if 2047 ≤ (exponent + 1075).toNat then packedInfinity Format.binary64 sign
      else if mantissa.log2 = 52 then
        packComponents Format.binary64 sign (BitVec.ofNat 11 (exponent + 1075).toNat) (BitVec.ofNat 52 mantissa)
      else packComponents Format.binary64 sign 0#11 (BitVec.ofNat 52 mantissa) := by
  have biased : (exponent + (Format.binary64.exponentBias : Int) + ((52 : Nat) : Int)).toNat =
      (exponent + 1075).toNat := by
    change (exponent + (1023 : Nat) + (52 : Nat)).toNat = _
    omega
  have top : 2 ^ 11 ≤ (exponent + 1075).toNat + 1 ↔ 2047 ≤ (exponent + 1075).toNat := by omega
  have bits : mantissa.log2 + 1 = Format.binary64.mantissaBits ↔ mantissa.log2 = 52 := by
    change mantissa.log2 + 1 = 53 ↔ _
    omega
  simp only [UnpackedFloat.pack, biased, top, bits]

theorem field_ne {width : Nat} (value : Nat) (other : BitVec width)
    (field : (BitVec.ofNat width value).toNat = value) (differ : value ≠ other.toNat) :
    BitVec.ofNat width value ≠ other := fun same => differ (field.symm.trans (congrArg BitVec.toNat same))

theorem held_normal (sign : Sign) (mantissa : Nat) (exponent : Int) (positive : 0 < mantissa)
    (digits : mantissa < 2 ^ 53) (full : 2 ^ 52 ≤ mantissa) (low : -1074 ≤ exponent) (high : exponent ≤ 971) :
    held (.finite sign mantissa exponent positive) = .finite sign mantissa exponent positive := by
  have leading : mantissa.log2 = 52 := (Nat.log2_eq_iff (by omega)).mpr ⟨full, digits⟩
  have field : (BitVec.ofNat 11 (exponent + 1075).toNat).toNat = (exponent + 1075).toNat := by
    rw [BitVec.toNat_ofNat]
    omega
  have notTop := field_ne _ (-1#11) field (show (exponent + 1075).toNat ≠ 2047 by omega)
  have notBottom := field_ne _ 0#11 field (show (exponent + 1075).toNat ≠ 0 by omega)
  have implicit : (1#1 ++ BitVec.ofNat 52 mantissa).toNat = mantissa := by
    rw [one_append, BitVec.toNat_ofNat]
    omega
  have place : ((exponent + 1075).toNat : Int) - ((Format.binary64.exponentBias : Int) + ((52 : Nat) : Int)) =
      exponent := by
    change ((exponent + 1075).toNat : Int) - ((1023 : Nat) + (52 : Nat)) = exponent
    omega
  have packed := pack_finite sign mantissa exponent positive
  rw [if_neg (by omega), if_pos leading] at packed
  change UnpackedFloat.unpack Format.binary64 (UnpackedFloat.pack Format.binary64 _) = _
  rw [packed]
  simp only [UnpackedFloat.unpack, unpackMantissa_packComponents, unpackExponent_packComponents,
    unpack_sign, if_neg notTop, if_neg notBottom, implicit, field, place]

theorem held_subnormal (sign : Sign) (mantissa : Nat) (positive : 0 < mantissa) (digits : mantissa < 2 ^ 52) :
    held (.finite sign mantissa (-1074) positive) = .finite sign mantissa (-1074) positive := by
  have leading : mantissa.log2 < 52 := (Nat.log2_lt (by omega)).mpr digits
  have field : (BitVec.ofNat 52 mantissa).toNat = mantissa := by
    rw [BitVec.toNat_ofNat]
    omega
  have some := field_ne _ 0#52 field (show mantissa ≠ 0 by omega)
  have packed := pack_finite sign mantissa (-1074) positive
  rw [if_neg (by decide), if_neg (by omega)] at packed
  change UnpackedFloat.unpack Format.binary64 (UnpackedFloat.pack Format.binary64 _) = _
  rw [packed]
  simp only [UnpackedFloat.unpack, unpackMantissa_packComponents, unpackExponent_packComponents,
    unpack_sign, field]
  rw [if_neg (by decide), if_pos trivial, dif_neg some]
  rfl

theorem held_overflow (sign : Sign) (mantissa : Nat) (exponent : Int) (positive : 0 < mantissa)
    (high : 971 < exponent) : held (.finite sign mantissa exponent positive) = .infinity sign := by
  have packed := pack_finite sign mantissa exponent positive
  rw [if_pos (by omega)] at packed
  change UnpackedFloat.unpack Format.binary64 (UnpackedFloat.pack Format.binary64 _) = _
  rw [packed]
  exact held_infinity sign

-- A number on the grid is held as it is, or it is too large and becomes infinite.
theorem held_of_holds (sign : Sign) (size : Rat) (result : UnpackedFloat) (holds : Holds sign size result) :
    (size < 2 ^ (1024 : Int) ∧ held result = result) ∨ (2 ^ (1024 : Int) ≤ size ∧ held result = .infinity sign) := by
  cases holds with
  | zero => exact .inl ⟨two_pow_pos 1024, held_zero sign⟩
  | finite mantissa exponent positive digits low full =>
      by_cases high : exponent ≤ 971
      · left
        constructor
        · have below := scaled_lt_digits mantissa 53 exponent digits
          exact below.trans_le ((two_pow_le_iff _ _).mpr (by omega))
        · by_cases normal : 2 ^ 52 ≤ mantissa
          · exact held_normal sign mantissa exponent positive digits normal low high
          · obtain rfl := full.resolve_left normal
            exact held_subnormal sign mantissa positive (by omega)
      · right
        refine ⟨?_, held_overflow sign mantissa exponent positive (by omega)⟩
        have normal : 2 ^ 52 ≤ mantissa := full.resolve_right (by omega)
        have reach := (le_scaled_iff mantissa 52 exponent).mpr normal
        exact ((two_pow_le_iff _ _).mpr (by omega)).trans reach

-- What a number can be when taken apart.
inductive Form : UnpackedFloat → Prop where
  | notANumber : Form .notANumber
  | infinity (sign : Sign) : Form (.infinity sign)
  | number (sign : Sign) (size : Rat) (result : UnpackedFloat) (holds : Holds sign size result)
      (within : size < 2 ^ (1024 : Int)) : Form result

-- The exponent field bounds the size; those of the smallest numbers share the field one in this.
theorem unpack_number (bits : BitVec 64) (finite : (@unpackExponent Format.binary64 bits).toNat ≠ 2047) :
    ∃ sign size, Holds sign size (UnpackedFloat.unpack Format.binary64 bits) ∧
      size < 2 ^ (max ((@unpackExponent Format.binary64 bits).toNat : Int) 1 - 1022) := by
  have digits : (@unpackMantissa Format.binary64 bits).toNat < 2 ^ 52 := BitVec.isLt _
  have bias : ((Format.binary64.exponentBias : Int) + ((52 : Nat) : Int)) = 1075 := rfl
  simp only [UnpackedFloat.unpack, bias]
  have belowTop : @unpackExponent Format.binary64 bits ≠ -1#11 := fun same =>
    finite (congrArg BitVec.toNat same)
  rw [if_neg belowTop]
  by_cases bottom : @unpackExponent Format.binary64 bits = 0#11
  · rw [if_pos bottom]
    split
    · exact ⟨_, 0, .zero, two_pow_pos _⟩
    · rw [bottom]
      exact ⟨_, _, .finite _ _ _ (by omega) (by decide) (.inr rfl), scaled_lt_digits _ 53 _ (by omega)⟩
  · rw [if_neg bottom]
    have aboveBottom : (@unpackExponent Format.binary64 bits).toNat ≠ 0 := fun same =>
      bottom (BitVec.eq_of_toNat_eq same)
    have implicit := one_append (@unpackMantissa Format.binary64 bits)
    refine ⟨_, _, .finite _ _ _ (by omega) (by omega) (.inl (by omega)), ?_⟩
    have below := scaled_lt_digits (1#1 ++ @unpackMantissa Format.binary64 bits).toNat 53
      (((@unpackExponent Format.binary64 bits).toNat : Int) - 1075) (by omega)
    exact below.trans_le ((two_pow_le_iff _ _).mpr (by omega))

theorem parts_form (x : Float) : Form (parts x) := by
  change Form (UnpackedFloat.unpack Format.binary64 x.toModel.toBits.toBitVec)
  generalize x.toModel.toBits.toBitVec = bits
  have field : (@unpackExponent Format.binary64 bits).toNat < 2 ^ 11 := BitVec.isLt _
  by_cases top : (@unpackExponent Format.binary64 bits).toNat = 2047
  · have ones : @unpackExponent Format.binary64 bits = -1#11 := BitVec.eq_of_toNat_eq top
    simp only [UnpackedFloat.unpack]
    rw [if_pos ones]
    split
    · exact .infinity _
    · exact .notANumber
  · obtain ⟨sign, size, holds, below⟩ := unpack_number bits top
    exact .number sign size _ holds (below.trans_le ((two_pow_le_iff _ _).mpr (by omega)))

end NormalForm.Binary64
