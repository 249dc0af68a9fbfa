import NormalForm.Proofs.Binary64.Comparison
import NormalForm.Proofs.Binary64.Sizes

/-!
Numbers that are not negative, and their products: a zero times an infinite number is none, and every other
product is not negative either.
-/

set_option autoImplicit false

open Float.Model Float.Model.UnpackedFloat

namespace NormalForm.Binary64

-- A zero of either sign, a positive number, or an infinite one.
inductive Upper : UnpackedFloat → Prop where
  | zero (sign : Sign) : Upper (.zero sign)
  | finite (mantissa : Nat) (exponent : Int) (positive : 0 < mantissa)
      (holds : Holds .positive (scaled mantissa exponent) (.finite .positive mantissa exponent positive)) :
      Upper (.finite .positive mantissa exponent positive)
  | infinity : Upper (.infinity .positive)

theorem zero_place : place (parts (Arithmetic.zero : Float)) = toLex (0, toLex (0, 0)) := rfl

theorem zero_is_number : IsNumber (Arithmetic.zero : Float) := UnpackedFloat.noConfusion

theorem upper_place (u : UnpackedFloat) (upper : Upper u) : u ≠ .notANumber ∧ toLex (0, toLex (0, 0)) ≤ place u := by
  cases upper with
  | zero sign => exact ⟨UnpackedFloat.noConfusion, le_refl _⟩
  | finite mantissa exponent positive holds =>
      exact ⟨UnpackedFloat.noConfusion, Prod.Lex.toLex_le_toLex.mpr (.inl Int.one_pos)⟩
  | infinity => exact ⟨UnpackedFloat.noConfusion, Prod.Lex.toLex_le_toLex.mpr (.inl (by decide))⟩

-- Zeros of either sign share a place; above them every place has one number.
theorem upper_of_place (u v : UnpackedFloat) (first : Upper u) (second : Upper v)
    (above : toLex (0, toLex (0, 0)) < place u) (same : place u = place v) : u = v := by
  cases first with
  | zero sign => exact absurd above (lt_irrefl _)
  | finite m e positive holds =>
      cases second with
      | zero sign => cases congrArg Prod.fst same
      | finite n f positive' holds' =>
          simp only [place, EmbeddingLike.apply_eq_iff_eq, Prod.mk.injEq, true_and, Nat.cast_inj] at same
          obtain ⟨rfl, rfl⟩ := same
          rfl
      | infinity => cases congrArg Prod.fst same
  | infinity =>
      cases second with
      | zero sign => cases congrArg Prod.fst same
      | finite n f positive' holds' => cases congrArg Prod.fst same
      | infinity => rfl

theorem negative_place (first : Int) (rest : Int ×ₗ Int) (negative : first < 0) :
    ¬ toLex (0, toLex (0, 0)) ≤ toLex (first, rest) := by
  intro above
  rcases Prod.Lex.toLex_le_toLex.mp above with less | ⟨same, -⟩
  · omega
  · omega

theorem upper_iff (x : Float) : Arithmetic.le Arithmetic.zero x = true ↔ Upper (parts x) := by
  rw [float_le_iff, zero_place]
  constructor
  · rintro ⟨-, number, above⟩
    have form := parts_form x
    rw [IsNumber] at number
    generalize parts x = u at number above form
    cases form with
    | notANumber => exact absurd rfl number
    | infinity sign =>
        cases sign with
        | negative => exact absurd above (negative_place _ _ (by decide))
        | positive => exact .infinity
    | number sign size _ holds within =>
        cases holds with
        | zero => exact .zero sign
        | finite mantissa exponent positive digits low full =>
            cases sign with
            | negative => exact absurd above (negative_place _ _ (by decide))
            | positive => exact .finite mantissa exponent positive (.finite mantissa exponent positive digits low full)
  · intro upper
    obtain ⟨number, above⟩ := upper_place _ upper
    exact ⟨zero_is_number, number, above⟩

theorem held_upper (size : Rat) (u : UnpackedFloat) (holds : Holds .positive size u) : Upper (held u) := by
  rcases held_of_holds .positive size u holds with ⟨-, kept⟩ | ⟨-, infinite⟩
  · rw [kept]
    cases holds with
    | zero => exact .zero .positive
    | finite mantissa exponent positive digits low full =>
        exact .finite mantissa exponent positive (.finite mantissa exponent positive digits low full)
  · rw [infinite]
    exact .infinity

-- Only a zero and an infinite number have no product.
theorem mul_upper (u v : UnpackedFloat) (first : Upper u) (second : Upper v) :
    Upper (held (UnpackedFloat.mul Format.binary64 u v)) ∨
      UnpackedFloat.mul Format.binary64 u v = .notANumber ∧ (v = .infinity .positive ∨ ∃ sign, v = .zero sign) := by
  cases first with
  | zero s =>
      cases second with
      | zero t => exact .inl (held_zero (s * t) ▸ .zero _)
      | finite n f positive holds => exact .inl (held_zero (s * .positive) ▸ .zero _)
      | infinity => exact .inr ⟨rfl, .inl rfl⟩
  | finite m e positive holds =>
      cases second with
      | zero t => exact .inl (held_zero (.positive * t) ▸ .zero _)
      | finite n f positive' holds' =>
          obtain ⟨size, product, -⟩ := mul_holds .positive .positive _ _ _ _ holds holds'
          exact .inl (held_upper size _ product)
      | infinity => exact .inl (held_infinity .positive ▸ .infinity)
  | infinity =>
      cases second with
      | zero t => exact .inr ⟨rfl, .inr ⟨t, rfl⟩⟩
      | finite n f positive holds => exact .inl (held_infinity .positive ▸ .infinity)
      | infinity => exact .inl (held_infinity .positive ▸ .infinity)

/-! Tolerances, which are factors times one or what is larger. -/

theorem one_le_max (scale : Float) : Arithmetic.le Arithmetic.one (Arithmetic.max scale Arithmetic.one) = true := by
  rw [Arithmetic.max]
  split
  · rfl
  · rename_i kept
    rw [Bool.or_eq_true, not_or, Bool.not_eq_true', Bool.not_eq_false, Bool.not_eq_true] at kept
    obtain ⟨number, above⟩ := kept
    exact float_le_of_not_lt _ _ UnpackedFloat.noConfusion ((is_number_iff scale).mp number) above

theorem max_finite (scale : Float) (finite : scale.isFinite = true) :
    (Arithmetic.max scale Arithmetic.one).isFinite = true := by
  rw [Arithmetic.max]
  split
  · rfl
  · exact finite

theorem upper_of_one_le (x : Float) (large : Arithmetic.le Arithmetic.one x = true) :
    Upper (parts x) ∧ ∀ sign, parts x ≠ .zero sign := by
  obtain ⟨-, number, above⟩ := (float_le_iff _ _).mp large
  have less : place (parts (Arithmetic.zero : Float)) < place (parts (Arithmetic.one : Float)) :=
    ((float_lt_iff _ _).mp (rfl : Arithmetic.lt (Arithmetic.zero : Float) Arithmetic.one = true)).2.2
  have further := less.trans_le above
  refine ⟨(upper_iff x).mp ((float_le_iff _ _).mpr ⟨zero_is_number, number, further.le⟩), ?_⟩
  intro sign zero
  rw [zero] at further
  exact lt_irrefl _ further

theorem tolerance_not_negative (factor scale : Float) (upper : Arithmetic.le Arithmetic.zero factor = true)
    (number : IsNumber (factor * Arithmetic.max scale Arithmetic.one)) :
    Arithmetic.le Arithmetic.zero (factor * Arithmetic.max scale Arithmetic.one) = true := by
  rw [upper_iff] at upper ⊢
  obtain ⟨large, -⟩ := upper_of_one_le _ (one_le_max scale)
  rw [IsNumber, parts_mul] at number
  rw [parts_mul]
  rcases mul_upper _ _ upper large with product | ⟨none, -⟩
  · exact product
  · rw [none] at number
    exact absurd held_not_a_number number

theorem tolerance_is_number (factor scale : Float) (upper : Arithmetic.le Arithmetic.zero factor = true)
    (finite : scale.isFinite = true) : IsNumber (factor * Arithmetic.max scale Arithmetic.one) := by
  rw [upper_iff] at upper
  obtain ⟨large, nonzero⟩ := upper_of_one_le _ (one_le_max scale)
  have bounded := max_finite scale finite
  change (parts (Arithmetic.max scale Arithmetic.one)).isFinite = true at bounded
  rw [IsNumber, parts_mul]
  generalize parts (Arithmetic.max scale Arithmetic.one) = v at large nonzero bounded
  rcases mul_upper _ v upper large with product | ⟨-, rfl | ⟨sign, rfl⟩⟩
  · exact (upper_place _ product).1
  · cases bounded
  · exact absurd rfl (nonzero sign)

end NormalForm.Binary64
