import Mathlib.Algebra.Order.Ring.Nat
import NormalForm.Random.Generator

/-!
Numbers drawn below a bound. The high half of the product of a word and the bound is below the bound, and it is
below by more than one wherever the low half is so near the top that the draw may be corrected.
-/

set_option autoImplicit false

namespace NormalForm.Random.Generator

-- The generator after so many draws.
def after (bound : UInt64) : Nat → Generator → Generator
  | 0, g => g
  | count + 1, g => after bound count (g.below bound).2

-- The draw with this number, counted from zero.
def draw (bound : UInt64) (number : Nat) (g : Generator) : Nat := ((g.after bound number).below bound).1

theorem wide_product_parts (a b : UInt64) :
    2 ^ 64 * (wideProduct a b).1 + (wideProduct a b).2 = a.toNat * b.toNat ∧ (wideProduct a b).2 < 2 ^ 64 := by
  simp only [wideProduct, Nat.pow_eq]
  exact ⟨Nat.div_add_mod _ _, Nat.mod_lt _ (by decide)⟩

-- The product is at most the bound times the largest word, which leaves the bound itself to the next multiple.
theorem wide_product_room (word bound : UInt64) :
    2 ^ 64 * (wideProduct word bound).1 + (wideProduct word bound).2 + bound.toNat ≤ 2 ^ 64 * bound.toNat := by
  obtain ⟨parts, -⟩ := wide_product_parts word bound
  have largest : word.toNat + 1 ≤ 2 ^ 64 := word.toNat_lt
  calc 2 ^ 64 * (wideProduct word bound).1 + (wideProduct word bound).2 + bound.toNat
      = (word.toNat + 1) * bound.toNat := by rw [parts, Nat.succ_mul]
    _ ≤ 2 ^ 64 * bound.toNat := Nat.mul_le_mul_right _ largest

theorem zero_sub_to_nat (bound : UInt64) (positive : 0 < bound.toNat) : (0 - bound).toNat = 2 ^ 64 - bound.toNat := by
  have small := bound.toNat_lt
  rw [UInt64.toNat_sub, UInt64.toNat_zero, Nat.add_zero]
  exact Nat.mod_eq_of_lt (by omega)

theorem high_below (word bound : UInt64) (positive : 0 < bound.toNat) : (wideProduct word bound).1 < bound.toNat := by
  have room := wide_product_room word bound
  omega

theorem corrected_below (word bound : UInt64) (positive : 0 < bound.toNat)
    (near : (0 - bound).toNat < (wideProduct word bound).2) : (wideProduct word bound).1 + 1 < bound.toNat := by
  have room := wide_product_room word bound
  have small := bound.toNat_lt
  rw [zero_sub_to_nat bound positive] at near
  omega

theorem below_lt (bound : UInt64) (positive : 0 < bound.toNat) (g : Generator) : (g.below bound).1 < bound.toNat := by
  have high := high_below g.next.1 bound positive
  rw [below]
  dsimp only
  by_cases near : (wideProduct g.next.1 bound).2 > (0 - bound).toNat
  · rw [if_pos near]
    dsimp only
    split
    · exact high
    · exact corrected_below g.next.1 bound positive near
  · rw [if_neg near]
    exact high

theorem draws_at (bound : UInt64) (count number : Nat) (g : Generator) (inside : number < count) :
    (g.draws bound count)[number]? = some (g.draw bound number) := by
  induction count generalizing number g with
  | zero => exact absurd inside (Nat.not_lt_zero number)
  | succ count ih =>
      cases number with
      | zero => rfl
      | succ number =>
          rw [draws]
          exact ih number _ (Nat.lt_of_succ_lt_succ inside)

end NormalForm.Random.Generator
