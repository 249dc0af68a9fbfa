import NormalForm.Proofs.Binary64.Rounding

/-!
Sums, products, quotients and roots of numbers on the grid of binary64, before they are held: their sizes
are those of the exact results, rounded.
-/

set_option autoImplicit false

open Float.Model Float.Model.UnpackedFloat

namespace NormalForm.Binary64

-- A size beside the exact one that it was rounded from, as far as powers of two tell.
structure Rounds (exact size : Rat) : Prop where
  atMost : ∀ power : Int, -1074 ≤ power → exact ≤ 2 ^ power + 2 ^ (power - 54) → size ≤ 2 ^ power
  atLeast : ∀ power : Int, -1074 ≤ power → 2 ^ power ≤ exact → 2 ^ power ≤ size

theorem rounds_zero : Rounds 0 0 where
  atMost := fun power _ _ => (two_pow_pos power).le
  atLeast := fun _ _ large => large

-- What is on the grid is not rounded.
theorem rounds_same (sign : Sign) (size : Rat) (result : UnpackedFloat) (holds : Holds sign size result) :
    Rounds size size := by
  cases holds with
  | zero => exact rounds_zero
  | finite mantissa exponent positive digits low full =>
      have place := grid_rests mantissa exponent digits low
      have same : rounded mantissa exponent .exact = mantissa := by
        rw [rounded, place, sub_self]
        rfl
      refine ⟨?_, fun _ _ large => large⟩
      intro power least close
      have below := rounded_at_most mantissa exponent power .exact least close
      rwa [same, place] at below

theorem round_exact (sign : Sign) (mantissa : Nat) (exponent : Int)
    (fine : exponent ≤ max (exponent + mantissa.log2 - 52) (-1074)) :
    ∃ size, Holds sign size (roundWithAccuracy Format.binary64 sign mantissa exponent .exact) ∧
      Rounds (scaled mantissa exponent) size :=
  ⟨_, round_holds sign mantissa exponent .exact fine, fun power low close =>
    rounded_at_most mantissa exponent power .exact low close, fun power low large =>
    rounded_at_least mantissa exponent power .exact low large⟩

/-! Products. -/

theorem scaled_mul (m n : Nat) (e f : Int) : scaled (m * n) (e + f) = scaled m e * scaled n f := by
  rw [scaled, scaled, scaled, two_pow_add, Nat.cast_mul]
  ring

theorem mul_holds (s t : Sign) (q r : Rat) (u v : UnpackedFloat) (first : Holds s q u) (second : Holds t r v) :
    ∃ size, Holds (s * t) size (UnpackedFloat.mul Format.binary64 u v) ∧ Rounds (q * r) size := by
  cases first with
  | zero =>
      rw [zero_mul]
      cases second with
      | zero => exact ⟨0, .zero, rounds_zero⟩
      | finite => exact ⟨0, .zero, rounds_zero⟩
  | finite m e positive digits low full =>
      cases second with
      | zero =>
          rw [mul_zero]
          exact ⟨0, .zero, rounds_zero⟩
      | finite n f positive' digits' low' full' =>
          rw [← scaled_mul]
          apply round_exact
          have fine : e + f ≤ -1074 ∨ 2 ^ 52 ≤ m * n := by
            rcases full with normal | least
            · exact .inr (normal.trans (Nat.le_mul_of_pos_right m positive'))
            · rcases full' with normal | least'
              · exact .inr (normal.trans (Nat.le_mul_of_pos_left n positive))
              · exact .inl (by omega)
          rcases fine with least | normal
          · exact least.trans (le_max_right _ _)
          · have digits := (Nat.le_log2 (by positivity)).mpr normal
            exact le_trans (by omega) (le_max_left _ _)

/-! Sums. -/

def signed (sign : Sign) (size : Rat) : Rat :=
  match sign with
  | .negative => -size
  | .positive => size

theorem scaled_shift (mantissa shift : Nat) (exponent : Int) :
    scaled (mantissa <<< shift) (exponent - shift) = scaled mantissa exponent := by
  have unit : (2 : Rat) ^ (shift : Int) * 2 ^ (exponent - shift) = 2 ^ exponent := by
    rw [← two_pow_add]
    congr 1
    omega
  rw [scaled, scaled, Nat.shiftLeft_eq, ← unit, zpow_natCast, Nat.cast_mul, Nat.cast_pow, mul_assoc]
  norm_cast

theorem log2_shift (mantissa shift : Nat) (positive : 0 < mantissa) :
    (mantissa <<< shift).log2 = mantissa.log2 + shift := by
  have leading := (Nat.log2_eq_iff (n := mantissa) (by omega)).mp rfl
  have unit := Nat.two_pow_pos shift
  rw [Nat.shiftLeft_eq]
  rw [Nat.log2_eq_iff (by positivity), Nat.pow_add, Nat.add_right_comm, Nat.pow_add _ _ shift]
  exact ⟨Nat.mul_le_mul_right _ leading.1, Nat.mul_lt_mul_of_pos_right leading.2 unit⟩

theorem round_from_below (sign : Sign) (mantissa : Nat) (exponent : Int) (positive : 0 < mantissa) :
    ∃ size, Holds sign size (UnpackedFloat.round Format.binary64 sign mantissa exponent) ∧
      Rounds (scaled mantissa exponent) size := by
  simp only [UnpackedFloat.round, target_eq, decreaseExponent]
  have amount : ((exponent - max (exponent + mantissa.log2 - 52) (-1074)).toNat : Int) =
      max (exponent - max (exponent + mantissa.log2 - 52) (-1074)) 0 := Int.toNat_eq_max _
  generalize (exponent - max (exponent + mantissa.log2 - 52) (-1074)).toNat = shift at amount
  rw [← scaled_shift mantissa shift exponent]
  apply round_exact
  rw [log2_shift mantissa shift positive]
  omega

theorem normalize_holds (total exponent : Int) (zeroSign : Sign) :
    ∃ sign size, Holds sign size (UnpackedFloat.normalize Format.binary64 total exponent zeroSign) ∧
      Rounds (scaled total.natAbs exponent) size ∧ (0 < total → sign = .positive) ∧
      (total = 0 → sign = zeroSign) := by
  rw [UnpackedFloat.normalize]
  rcases lt_trichotomy total 0 with negative | zero | positive
  · rw [Int.compare_eq_lt.mpr negative]
    obtain ⟨size, holds, rounds⟩ := round_from_below .negative (-total).toNat exponent (by omega)
    have same : (-total).toNat = total.natAbs := by omega
    exact ⟨.negative, size, holds, same ▸ rounds, by omega, by omega⟩
  · rw [Int.compare_eq_eq.mpr zero, zero]
    refine ⟨zeroSign, 0, .zero, ?_, by omega, fun _ => rfl⟩
    rw [Int.natAbs_zero, scaled, Nat.cast_zero, zero_mul]
    exact rounds_zero
  · rw [Int.compare_eq_gt.mpr positive]
    obtain ⟨size, holds, rounds⟩ := round_from_below .positive total.toNat exponent (by omega)
    have same : total.toNat = total.natAbs := by omega
    exact ⟨.positive, size, holds, same ▸ rounds, fun _ => rfl, by omega⟩

theorem signed_apply (sign : Sign) (mantissa : Nat) (exponent : Int) :
    (sign.apply mantissa : Rat) * 2 ^ exponent = signed sign (scaled mantissa exponent) := by
  cases sign with
  | negative =>
      change ((-(mantissa : Int) : Int) : Rat) * 2 ^ exponent = -(mantissa * 2 ^ exponent)
      push_cast
      ring
  | positive => rfl

theorem abs_signed (sign : Sign) (size : Rat) (nonneg : 0 ≤ size) : |signed sign size| = size := by
  cases sign with
  | negative => exact (abs_neg size).trans (abs_of_nonneg nonneg)
  | positive => exact abs_of_nonneg nonneg

theorem holds_nonneg (sign : Sign) (size : Rat) (result : UnpackedFloat) (holds : Holds sign size result) :
    0 ≤ size := by
  cases holds with
  | zero => exact le_refl 0
  | finite mantissa exponent positive digits low full => exact scaled_nonneg mantissa exponent

theorem signed_zero (sign : Sign) : signed sign 0 = 0 := by
  cases sign with
  | negative => exact neg_zero
  | positive => rfl

theorem add_finite (s t : Sign) (m n : Nat) (e f : Int) (positive : 0 < m) (positive' : 0 < n) :
    ∃ sign size, Holds sign size (UnpackedFloat.add Format.binary64 (.finite s m e positive) (.finite t n f positive')) ∧
      Rounds |signed s (scaled m e) + signed t (scaled n f)| size ∧ (s = .positive → t = .positive → sign = .positive) := by
  simp only [UnpackedFloat.add, decreaseExponent]
  generalize left : (e - min e f).toNat = i
  generalize right : (f - min e f).toNat = j
  have onLeft : e - i = min e f := by omega
  have onRight : f - j = min e f := by omega
  obtain ⟨sign, size, holds, rounds, above, -⟩ :=
    normalize_holds (s.apply (m <<< i : Nat) + t.apply (n <<< j : Nat)) (min e f) .positive
  refine ⟨sign, size, holds, ?_, ?_⟩
  · have total : ((s.apply (m <<< i : Nat) + t.apply (n <<< j : Nat) : Int) : Rat) * 2 ^ min e f =
        signed s (scaled m e) + signed t (scaled n f) := by
      rw [Int.cast_add, add_mul, signed_apply, signed_apply, ← scaled_shift m i e, ← scaled_shift n j f, onLeft, onRight]
    have size := congrArg (fun value : Rat => |value|) total
    rw [abs_mul, abs_of_pos (two_pow_pos _), ← Int.cast_abs, Int.abs_eq_natAbs, Int.cast_natCast] at size
    exact size ▸ rounds
  · rintro rfl rfl
    apply above
    change 0 < ((m <<< i : Nat) : Int) + ((n <<< j : Nat) : Int)
    have some : 0 < m <<< i := by
      rw [Nat.shiftLeft_eq]
      positivity
    exact Int.add_pos_of_pos_of_nonneg (Int.natCast_pos.mpr some) (Int.natCast_nonneg _)

theorem add_holds (s t : Sign) (q r : Rat) (u v : UnpackedFloat) (first : Holds s q u) (second : Holds t r v) :
    ∃ sign size, Holds sign size (UnpackedFloat.add Format.binary64 u v) ∧ Rounds |signed s q + signed t r| size ∧
      (s = .positive ∨ q = 0 → t = .positive → sign = .positive) := by
  have kept := rounds_same t r v second
  have kept' := rounds_same s q u first
  have nonneg := holds_nonneg t r v second
  have nonneg' := holds_nonneg s q u first
  cases first with
  | zero =>
      rw [signed_zero, zero_add, abs_signed t r nonneg]
      cases second with
      | zero =>
          cases s <;> cases t
          · exact ⟨.negative, 0, .zero, kept, fun _ same => same⟩
          · exact ⟨.positive, 0, .zero, kept, fun _ _ => rfl⟩
          · exact ⟨.positive, 0, .zero, kept, fun _ _ => rfl⟩
          · exact ⟨.positive, 0, .zero, kept, fun _ _ => rfl⟩
      | finite n f positive digits low full =>
          exact ⟨t, _, .finite n f positive digits low full, kept, fun _ same => same⟩
  | finite m e positive digits low full =>
      cases second with
      | zero =>
          rw [signed_zero, add_zero, abs_signed s _ nonneg']
          refine ⟨s, _, .finite m e positive digits low full, kept', fun above _ => ?_⟩
          exact above.resolve_right (two_pow_pos e |>.trans_le (two_pow_le_scaled m e positive)).ne'
      | finite n f positive' digits' low' full' =>
          obtain ⟨sign, size, holds, rounds, above⟩ := add_finite s t m n e f positive positive'
          refine ⟨sign, size, holds, rounds, fun upper same => above ?_ same⟩
          exact upper.resolve_right (two_pow_pos e |>.trans_le (two_pow_le_scaled m e positive)).ne'

/-! Quotients. -/

theorem quotient_log2 (m n shift : Nat) (positive : 0 < m) (positive' : 0 < n) (large : n.log2 < m.log2 + shift) :
    m.log2 + shift ≤ ((m <<< shift) / n).log2 + n.log2 + 1 := by
  have divisor : n < 2 ^ (n.log2 + 1) := Nat.lt_log2_self
  have divided : 2 ^ (m.log2 + shift) ≤ m <<< shift := by
    rw [← log2_shift m shift positive]
    refine Nat.log2_self_le ?_
    rw [Nat.shiftLeft_eq]
    positivity
  have whole : 2 ^ (m.log2 + shift - (n.log2 + 1)) ≤ (m <<< shift) / n := by
    rw [Nat.le_div_iff_mul_le positive']
    refine (Nat.mul_le_mul_left _ divisor.le).trans ?_
    rw [← Nat.pow_add, Nat.sub_add_cancel large]
    exact divided
  have bits := (Nat.le_log2 (Nat.pos_iff_ne_zero.mp ((Nat.two_pow_pos _).trans_le whole))).mpr whole
  omega

-- The first digits of a quotient, with what is cut off, do not exceed a power of two that it does not.
theorem quotient_below (m n shift power : Nat) (positive : 0 < n) (small : m <<< shift ≤ n * 2 ^ power) :
    (m <<< shift) / n + slack (accuracyOfFraction ((m <<< shift) % n) n) ≤ 2 ^ power := by
  have parts := Nat.div_add_mod (m <<< shift) n
  rw [accuracyOfFraction]
  split
  · rename_i whole
    rw [whole, add_zero] at parts
    rw [← parts] at small
    exact Nat.le_of_mul_le_mul_left small positive
  · rename_i cut
    apply Nat.succ_le_of_lt
    apply Nat.lt_of_mul_lt_mul_left (a := n)
    omega

theorem div_target_eq (m n : Nat) (e f : Int) :
    Format.binary64.targetExponent (totalExponent m e - totalExponent n f) =
      max (e + m.log2 - (f + n.log2) - 53) (-1074) := by
  simp only [Format.targetExponent, totalExponent, Format.mantissaBits, Format.minExponent]
  norm_num
  omega

theorem div_finite (s t : Sign) (m n : Nat) (e f : Int) (positive : 0 < m) (positive' : 0 < n) (a b : Int)
    (low : -1074 ≤ a - b) (small : scaled m e ≤ 2 ^ a) (large : 2 ^ b ≤ scaled n f) :
    ∃ size, Holds (s / t) size (UnpackedFloat.div Format.binary64 (.finite s m e positive) (.finite t n f positive')) ∧
      size ≤ 2 ^ (a - b) := by
  have divided := (two_pow_le_iff _ _).mp ((leading_le_scaled m e positive).trans small)
  have divisor := (two_pow_lt_iff _ _).mp (large.trans_lt (scaled_lt_leading n f))
  simp only [UnpackedFloat.div, divCore, div_target_eq]
  generalize place : min (e - f) (max (e + m.log2 - (f + n.log2) - 53) (-1074)) = g
  have amount : ((e - f - g).toNat : Int) = e - f - g := Int.toNat_of_nonneg (by omega)
  generalize (e - f - g).toNat = shift at amount
  obtain ⟨power, reach⟩ := Int.le.dest (show g ≤ a - b by omega)
  have within : m <<< shift ≤ n * 2 ^ power := by
    have cross : scaled m e * 2 ^ b ≤ 2 ^ a * scaled n f :=
      mul_le_mul small large (two_pow_pos b).le (two_pow_pos a).le
    have exponents : e + b = b + f + g + shift := by omega
    have exponents' : a + f = b + f + g + power := by omega
    have left : scaled m e * 2 ^ b = 2 ^ (b + f + g) * (m * 2 ^ shift) := by
      rw [scaled, mul_assoc, ← two_pow_add, exponents, two_pow_add _ (shift : Int), zpow_natCast]
      ring
    have right : 2 ^ a * scaled n f = 2 ^ (b + f + g) * (n * 2 ^ power) := by
      rw [scaled, mul_left_comm, ← two_pow_add, exponents', two_pow_add _ (power : Int), zpow_natCast]
      ring
    rw [left, right] at cross
    have numerators := le_of_mul_le_mul_left cross (two_pow_pos _)
    rw [Nat.shiftLeft_eq]
    exact_mod_cast numerators
  refine ⟨_, round_holds (s / t) _ g _ ?_, ?_⟩
  · by_cases least : g ≤ -1074
    · exact least.trans (le_max_right _ _)
    · have digits := quotient_log2 m n shift positive positive' (by omega)
      omega
  · apply rounded_at_most _ _ _ _ low
    refine le_trans ?_ (le_add_of_nonneg_right (two_pow_pos _).le)
    rw [← reach, scaled_le_iff]
    exact quotient_below m n shift power positive' within

-- A divisor is at least a power of two and the number divided at most another: so is the quotient.
theorem div_holds (s t : Sign) (q r : Rat) (u v : UnpackedFloat) (first : Holds s q u) (second : Holds t r v)
    (a b : Int) (low : -1074 ≤ a - b) (small : q ≤ 2 ^ a) (large : 2 ^ b ≤ r) :
    ∃ size, Holds (s / t) size (UnpackedFloat.div Format.binary64 u v) ∧ size ≤ 2 ^ (a - b) := by
  cases second with
  | zero => exact absurd large (two_pow_pos b).not_ge
  | finite n f positive' digits' low' full' =>
      cases first with
      | zero => exact ⟨0, .zero, (two_pow_pos _).le⟩
      | finite m e positive digits low' full =>
          exact div_finite s t m n e f positive positive' a b low small large

/-! Square roots. -/

theorem sqrt_target_eq (m : Nat) (e : Int) :
    Format.binary64.targetExponent ((totalExponent m e + 1).ediv 2) = max ((e + m.log2 + 2) / 2 - 53) (-1074) := by
  have same : totalExponent m e + 1 = e + m.log2 + 2 := by
    rw [totalExponent]
    omega
  rw [same]
  simp only [Format.targetExponent, Format.mantissaBits, Format.minExponent]
  norm_num
  rfl

theorem sqrt_finite (m : Nat) (e : Int) (positive : 0 < m) (a : Int) (low : -1074 ≤ a)
    (large : 2 ^ (2 * a) ≤ scaled m e) :
    ∃ size, Holds .positive size (UnpackedFloat.sqrt Format.binary64 (.finite .positive m e positive)) ∧
      2 ^ a ≤ size := by
  simp only [UnpackedFloat.sqrt, sqrtCore, sqrt_target_eq]
  generalize place : min (e.ediv 2) (max ((e + m.log2 + 2) / 2 - 53) (-1074)) = g
  have half : e.ediv 2 = e / 2 := rfl
  have amount : ((e - 2 * g).toNat : Int) = e - 2 * g := Int.toNat_of_nonneg (by omega)
  generalize (e - 2 * g).toNat = shift at amount
  have moved : scaled (m <<< shift) (2 * g) = scaled m e := by
    rw [← scaled_shift m shift e]
    congr 1
    omega
  have digits := log2_shift m shift positive
  have some : 0 < m <<< shift := by
    rw [Nat.shiftLeft_eq]
    positivity
  generalize m <<< shift = n at moved digits some
  have root : 0 < n.sqrt := Nat.sqrt_pos.mpr some
  refine ⟨_, round_holds .positive _ g _ ?_, ?_⟩
  · by_cases least : g ≤ -1074
    · exact least.trans (le_max_right _ _)
    · have bits : 104 ≤ n.log2 := by omega
      have square : (2 ^ 52) ^ 2 ≤ n := by
        rw [← Nat.pow_mul]
        exact (Nat.le_log2 (by omega)).mp bits
      have halves := (Nat.le_log2 (by omega)).mpr (Nat.le_sqrt'.mpr square)
      omega
  · apply rounded_at_least _ _ _ _ low
    by_cases below : g ≤ a
    · obtain ⟨power, reach⟩ := Int.le.dest below
      have doubled : 2 * a = 2 * g + (power * 2 : Nat) := by omega
      rw [← moved, doubled, le_scaled_iff, Nat.pow_mul] at large
      rw [← reach, le_scaled_iff]
      exact Nat.le_sqrt'.mpr large
    · exact ((two_pow_le_iff _ _).mpr (by omega)).trans (two_pow_le_scaled _ _ root)

-- The root of at least the square of a power of two is at least the power.
theorem sqrt_holds (q : Rat) (u : UnpackedFloat) (holds : Holds .positive q u) (a : Int) (low : -1074 ≤ a)
    (large : 2 ^ (2 * a) ≤ q) :
    ∃ size, Holds .positive size (UnpackedFloat.sqrt Format.binary64 u) ∧ 2 ^ a ≤ size := by
  cases holds with
  | zero => exact absurd large (two_pow_pos _).not_ge
  | finite m e positive digits low' full => exact sqrt_finite m e positive a low large

/-! Natural numbers. -/

theorem of_nat_holds (n : Nat) :
    ∃ size, Holds .positive size (UnpackedFloat.ofNat Format.binary64 n) ∧ Rounds n size := by
  obtain ⟨sign, size, holds, rounds, above, zero⟩ := normalize_holds n 0 .positive
  have same : scaled (n : Int).natAbs 0 = n := by
    rw [Int.natAbs_natCast, scaled, zpow_zero, mul_one]
  have upper : sign = .positive := by
    rcases Nat.eq_zero_or_pos n with none | some
    · exact zero (by exact_mod_cast none)
    · exact above (by exact_mod_cast some)
  subst upper
  exact ⟨size, holds, same ▸ rounds⟩

end NormalForm.Binary64
