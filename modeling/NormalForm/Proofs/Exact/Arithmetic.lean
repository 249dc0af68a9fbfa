import Mathlib.Analysis.Real.Sqrt
import Mathlib.LinearAlgebra.Matrix.Determinant.Basic
import Mathlib.Order.Interval.Finset.Nat
import NormalForm.Scalar

/-!
The real numbers as scalars: every operation is exact and the determinant is the mathematical one.
Sums and powers as the solver computes them are the ones of algebra.
-/

set_option autoImplicit false

namespace NormalForm

-- The matrix of a list of rows; what a row lacks counts as zero.
def matrixOf (rows : List (List ℝ)) (height width : Nat) : Matrix (Fin height) (Fin width) ℝ :=
  fun row column => (rows.getD row []).getD column 0

noncomputable instance : Scalar ℝ where
  ofNat n := n
  ofRat q := q
  abs x := |x|
  sqrt := Real.sqrt
  lt a b := decide (a < b)
  le a b := decide (a ≤ b)
  order a b := compare a b
  isFinite _ := true
  noTerms := 0
  top := 0
  det rows := (matrixOf rows rows.length rows.length).det

namespace Exact

@[simp]
theorem zero_eq : (Arithmetic.zero : ℝ) = 0 :=
  Nat.cast_zero

@[simp]
theorem one_eq : (Arithmetic.one : ℝ) = 1 :=
  Nat.cast_one

@[simp]
theorem of_nat_eq (n : Nat) : (Arithmetic.ofNat n : ℝ) = n :=
  rfl

@[simp]
theorem lt_eq (a b : ℝ) : Arithmetic.lt a b = decide (a < b) :=
  rfl

@[simp]
theorem le_eq (a b : ℝ) : Arithmetic.le a b = decide (a ≤ b) :=
  rfl

@[simp]
theorem sum_eq (terms : List ℝ) : Arithmetic.sum terms = terms.sum :=
  List.sum_eq_foldl.symm

theorem sum_of_range (terms : Nat → ℝ) (n : Nat) :
    ((List.range n).map terms).sum = ∑ i ∈ Finset.range n, terms i := by
  rw [← List.sum_toFinset terms List.nodup_range, List.toFinset_range]

theorem sum_of_interval (terms : Nat → ℝ) (start n : Nat) :
    ((List.range' start n).map terms).sum = ∑ i ∈ Finset.Ico start (start + n), terms i := by
  rw [← List.sum_toFinset terms List.nodup_range', List.toFinset_range'_1]

theorem product_eq (factors : List ℝ) : Arithmetic.product factors = factors.prod := by
  rw [Arithmetic.product, List.prod_eq_foldl, one_eq]

theorem same_eq (a b : ℝ) : Arithmetic.same a b = decide (a = b) := by
  simp only [Arithmetic.same, le_eq, le_antisymm_iff, Bool.decide_and]

theorem min_eq (a b : ℝ) : Arithmetic.min a b = min a b := by
  simp only [Arithmetic.min, Arithmetic.isNumber, le_eq, lt_eq, le_refl, decide_true, Bool.not_true,
    Bool.false_or, decide_eq_true_eq]
  exact (min_def_lt b a).symm.trans (min_comm b a)

@[simp]
theorem max_eq (a b : ℝ) : Arithmetic.max a b = max a b := by
  simp only [Arithmetic.max, Arithmetic.isNumber, le_eq, lt_eq, le_refl, decide_true, Bool.not_true,
    Bool.false_or, decide_eq_true_eq]
  exact (max_def_lt a b).symm

theorem clamp_eq (low high a : ℝ) (ordered : low ≤ high) : Arithmetic.clamp low high a = max low (min high a) := by
  rw [Arithmetic.clamp, lt_eq, lt_eq]
  by_cases below : a < low
  · rw [if_pos (decide_eq_true below), max_eq_left ((min_le_right high a).trans below.le)]
  · rw [if_neg (mt of_decide_eq_true below)]
    by_cases above : high < a
    · rw [if_pos (decide_eq_true above), min_eq_left above.le, max_eq_right ordered]
    · rw [if_neg (mt of_decide_eq_true above), min_eq_right (not_lt.mp above),
        max_eq_right (not_lt.mp below)]

theorem smallest_ge (bound first : ℝ) (rest : List ℝ) (low : bound ≤ first)
    (each : ∀ value ∈ rest, bound ≤ value) :
    bound ≤ Arithmetic.smallest (first :: rest) := by
  have number : Arithmetic.isNumber first = true := decide_eq_true (le_refl first)
  rw [Arithmetic.smallest, if_pos number]
  clear number
  induction rest generalizing first with
  | nil => exact low
  | cons next rest ih =>
      have least : bound ≤ Arithmetic.min first next := by
        rw [min_eq]
        exact le_min low (each next List.mem_cons_self)
      exact ih _ least fun value member => each value (List.mem_cons_of_mem next member)

theorem largest_le_iff (values : List ℝ) (bound : ℝ) :
    Arithmetic.largest values ≤ bound ↔ 0 ≤ bound ∧ ∀ value ∈ values, value ≤ bound := by
  have fold (first : ℝ) : values.foldl Arithmetic.max first ≤ bound ↔
      first ≤ bound ∧ ∀ value ∈ values, value ≤ bound := by
    induction values generalizing first with
    | nil => simp
    | cons next rest ih => rw [List.foldl_cons, ih, max_eq, max_le_iff, List.forall_mem_cons, and_assoc]
  rw [Arithmetic.largest, fold, zero_eq]

-- Zeros aside, two lists of the same numbers have the same largest.
theorem largest_of_same (values others : List ℝ) (known : ∀ x ∈ values, x = Arithmetic.zero ∨ x ∈ others)
    (also : ∀ x ∈ others, x = Arithmetic.zero ∨ x ∈ values) : Arithmetic.largest values = Arithmetic.largest others := by
  have within (first second : List ℝ) (known : ∀ x ∈ first, x = Arithmetic.zero ∨ x ∈ second) :
      Arithmetic.largest first ≤ Arithmetic.largest second := by
    obtain ⟨zero_le, all⟩ := (largest_le_iff second _).mp le_rfl
    refine (largest_le_iff first _).mpr ⟨zero_le, fun x member => ?_⟩
    rcases known x member with rfl | listed
    · exact zero_eq ▸ zero_le
    · exact all x listed
  exact le_antisymm (within values others known) (within others values also)

theorem largest_cases (values : List ℝ) : Arithmetic.largest values = 0 ∨ Arithmetic.largest values ∈ values := by
  have fold (first : ℝ) : values.foldl Arithmetic.max first = first ∨ values.foldl Arithmetic.max first ∈ values := by
    induction values generalizing first with
    | nil => exact .inl rfl
    | cons next rest ih =>
        rw [List.foldl_cons, max_eq, List.mem_cons]
        rcases ih (max first next) with whole | later
        · rw [whole]
          rcases max_choice first next with before | here
          · exact .inl before
          · exact .inr (.inl here)
        · exact .inr (.inr later)
  rw [Arithmetic.largest, zero_eq]
  exact fold 0

theorem det_eq (rows : List (List ℝ)) : Scalar.det rows = (matrixOf rows rows.length rows.length).det :=
  rfl

-- The induction follows the bits of the exponent.
theorem power_from_eq (result base : ℝ) (exponent : Nat) :
    Arithmetic.powerFrom result base exponent = result * base ^ exponent := by
  induction exponent using Nat.strong_induction_on generalizing result base with
  | _ exponent ih =>
      rw [Arithmetic.powerFrom]
      have parts : exponent = 2 * (exponent / 2) + exponent % 2 := (Nat.div_add_mod exponent 2).symm
      have square : base ^ exponent = (base * base) ^ (exponent / 2) * base ^ (exponent % 2) := by
        conv_lhs => rw [parts, pow_add, pow_mul, pow_two]
      have bit : exponent % 2 = 0 ∨ exponent % 2 = 1 := Nat.mod_two_eq_zero_or_one exponent
      have rest : (if exponent % 2 = 1 then result * base else result) = result * base ^ (exponent % 2) := by
        rcases bit with even | odd
        · simp [even]
        · simp [odd]
      simp only [rest]
      by_cases last : exponent / 2 = 0
      · rw [if_pos last, square, last, pow_zero, one_mul]
      · rw [if_neg last, ih (exponent / 2) (by omega), square]
        ring

@[simp]
theorem power_eq (base : ℝ) (exponent : Nat) : Arithmetic.power base exponent = base ^ exponent := by
  rw [Arithmetic.power, power_from_eq, one_eq, one_mul]

end Exact

end NormalForm
