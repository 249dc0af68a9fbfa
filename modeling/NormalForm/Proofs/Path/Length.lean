import NormalForm.Path.Step
import NormalForm.Proofs.Binary64.Comparison
import NormalForm.Proofs.Binary64.Sizes

/-!
Steps in floating point. A direction that has a length has numbers for entries, none of them larger than
the length by more than a factor of two, so that what a step adds to a probability is no larger than twice
the step size.
-/

set_option autoImplicit false

open Float.Model Float.Model.UnpackedFloat

namespace NormalForm.Path

open Binary64

theorem parts_zero : parts (Arithmetic.zero : Float) = .zero .positive := rfl

theorem no_terms_not_negative : NotNegative (Arithmetic.noTerms : Float) :=
  ⟨.negative, 0, .zero, .inr rfl⟩

theorem sqrt_reaches (x : Float) (power : Int) (low : -1074 ≤ power) (reaches : Reaches (2 * power) x) :
    AtLeast power x.sqrt := by
  obtain ⟨size, holds, large⟩ := reaches
  obtain ⟨root, held, above⟩ := sqrt_holds size _ holds power low large
  exact held_at_least _ _ (parts_sqrt x) root held power above

-- Only a number that is not zero has a positive root, and the least of those is a power of two.
theorem reaches_least (x : Float) (notNegative : NotNegative x)
    (positive : Arithmetic.lt Arithmetic.zero x.sqrt = true) : Reaches (-1074) x := by
  obtain ⟨sign, size, holds, upper⟩ := notNegative
  obtain ⟨-, -, less⟩ := (float_lt_iff _ _).mp positive
  rw [parts_sqrt, parts_zero] at less
  generalize same : parts x = u at holds less
  cases holds with
  | zero =>
      change _ < place (held (.zero sign)) at less
      rw [held_zero] at less
      exact absurd less (lt_irrefl _)
  | finite mantissa exponent some digits low full =>
      have above := two_pow_le_scaled mantissa exponent some
      have positive := upper.resolve_right ((two_pow_pos exponent).trans_le above).ne'
      subst positive
      exact ⟨_, same ▸ .finite mantissa exponent some digits low full, ((two_pow_le_iff _ _).mpr low).trans above⟩

theorem has_length_squares (direction : List Float) (has : hasLength (length direction) = true) :
    Reaches (-1074) (Arithmetic.sum (direction.map fun t => t * t)) ∧
      ∀ t ∈ direction, (t * t).isFinite = true ∧
        ∀ power, -1074 ≤ power → Reaches power (t * t) →
          Reaches power (Arithmetic.sum (direction.map fun t => t * t)) := by
  obtain ⟨finite, positive⟩ := (Bool.and_eq_true _ _).mp has
  have total := finite_of_sqrt _ finite
  obtain ⟨notNegative, reaches⟩ := sum_squares_reaches direction _ no_terms_not_negative total
  obtain ⟨-, squares⟩ := finite_of_sum _ _ total
  refine ⟨reaches_least _ notNegative positive, fun t member => ⟨squares _ (List.mem_map_of_mem member), ?_⟩⟩
  intro power low reached
  exact reaches power low (.inr ⟨t, member, reached⟩)

-- An entry and the length, on both sides of one power of two.
theorem entry_beside_length (direction : List Float) (has : hasLength (length direction) = true) (t : Float)
    (member : t ∈ direction) :
    ∃ power : Int, -537 ≤ power ∧ power ≤ 511 ∧ AtMost (power + 1) t ∧ AtLeast power (length direction) := by
  obtain ⟨least, each⟩ := has_length_squares direction has
  obtain ⟨finite, reaches⟩ := each t member
  obtain ⟨sign, size, holds⟩ := (finite_iff t).mp (finite_of_square t finite)
  have lowest : AtLeast (-537) (length direction) := sqrt_reaches _ (-537) (by decide) least
  by_cases tiny : size ≤ 2 ^ (-536 : Int)
  · exact ⟨-537, le_refl _, by decide, ⟨sign, size, holds, tiny⟩, lowest⟩
  · obtain ⟨square, held, rounds⟩ := square_holds t sign size holds finite
    have below := finite_below _ _ _ held
    generalize same : parts t = u at holds
    cases holds with
    | zero => exact absurd (two_pow_pos _).le tiny
    | finite mantissa exponent some digits low full =>
        have above := leading_le_scaled mantissa exponent some
        have under := scaled_lt_leading mantissa exponent
        have large := (two_pow_lt_iff _ _).mp ((not_le.mp tiny).trans under)
        have squared : (2 : Rat) ^ (2 * (exponent + mantissa.log2)) ≤
            scaled mantissa exponent * scaled mantissa exponent := by
          rw [two_mul, two_pow_add]
          exact mul_le_mul above above (two_pow_pos _).le (scaled_nonneg _ _)
        have reached := rounds.atLeast (2 * (exponent + mantissa.log2)) (by omega) squared
        have small := (two_pow_lt_iff _ _).mp (reached.trans_lt below)
        refine ⟨exponent + mantissa.log2, by omega, by omega, ?_, ?_⟩
        · exact ⟨sign, _, same ▸ .finite mantissa exponent some digits low full, under.le⟩
        · exact sqrt_reaches _ _ (by omega) (reaches _ (by omega) ⟨square, held, reached⟩)

-- Twice the step size bounds what a step adds.
theorem displacement_at_most (direction : List Float) (has : hasLength (length direction) = true) (t : Float)
    (member : t ∈ direction) (bound : Int) (low : -500 ≤ bound) (high : bound ≤ 486) (stepSize : Float)
    (small : AtMost bound stepSize) : AtMost (bound + 1) (t * (stepSize / length direction)) := by
  obtain ⟨power, least, most, entry, size⟩ := entry_beside_length direction has t member
  have scale := div_at_most bound power (by omega) (by omega) stepSize _ small size
  have product := mul_at_most (power + 1) (bound - power) (by omega) (by omega) t _ entry scale
  have same : power + 1 + (bound - power) = bound + 1 := by omega
  rwa [same] at product

end NormalForm.Path
