import Mathlib.LinearAlgebra.Matrix.Rank
import NormalForm.Proofs.Exact.Cofactor

/-!
The oriented cofactors of a matrix with one column more than rows: the matrix takes them to zero, and they
are not all zero unless its rank is less than its height.
-/

set_option autoImplicit false

namespace NormalForm.Exact

open NormalForm.Path

-- A vector outside the span of independent rows makes with them a square matrix that is regular, and its
-- expansion by that vector has the minors for coefficients.
theorem minors_vanish_iff {n : Nat} (matrix : Matrix (Fin n) (Fin (n + 1)) ℝ) :
    (∀ column : Fin (n + 1), (matrix.submatrix id column.succAbove).det = 0) ↔ matrix.rank < n := by
  have height := matrix.rank_le_height
  constructor
  · intro vanish
    by_contra full
    have rank : Fintype.card (Fin n) = Set.finrank ℝ (Set.range matrix.row) := by
      rw [Fintype.card_fin, Set.finrank, ← matrix.rank_eq_finrank_span_row]
      omega
    have independent : LinearIndependent ℝ matrix.row := linearIndependent_iff_card_eq_finrank_span.mpr rank
    have proper : Module.finrank ℝ (Submodule.span ℝ (Set.range matrix.row)) < Module.finrank ℝ (Fin (n + 1) → ℝ) := by
      rw [← matrix.rank_eq_finrank_span_row, Module.finrank_fintype_fun_eq_card, Fintype.card_fin]
      omega
    obtain ⟨outside, -, beyond⟩ := SetLike.exists_of_lt (Submodule.lt_top_of_finrank_lt_finrank proper)
    let square : Matrix (Fin (n + 1)) (Fin (n + 1)) ℝ := Matrix.of (Fin.cons outside matrix.row)
    have regular : IsUnit square := Matrix.linearIndependent_rows_iff_isUnit.mp (independent.finCons beyond)
    have expanded : square.det = 0 := by
      rw [Matrix.det_succ_row_zero]
      refine Finset.sum_eq_zero fun column _ => ?_
      have minor : square.submatrix Fin.succ column.succAbove = matrix.submatrix id column.succAbove := rfl
      rw [minor, vanish column, mul_zero]
    exact not_isUnit_zero (expanded ▸ (Matrix.isUnit_iff_isUnit_det square).mp regular)
  · intro low column
    by_contra minor
    have regular : IsUnit (matrix.submatrix id column.succAbove) :=
      (Matrix.isUnit_iff_isUnit_det _).mpr (isUnit_iff_ne_zero.mpr minor)
    have full := Matrix.rank_of_isUnit _ regular
    rw [Fintype.card_fin] at full
    have bound := matrix.rank_submatrix_le id column.succAbove
    omega

theorem cofactor_eq (orientation : ℝ) (rows : List (List ℝ)) (column : Fin (rows.length + 1)) :
    (tangent orientation rows).getD column 0 = orientation * (-1) ^ (column : Nat) *
      ((matrixOf rows rows.length (rows.length + 1)).submatrix id column.succAbove).det := by
  rw [tangent_entry orientation rows column column.isLt, ← minor_eq []]
  rfl

theorem tangent_zero_iff (orientation : ℝ) (bearing : orientation ≠ 0) (rows : List (List ℝ)) :
    (∀ column : Fin (rows.length + 1), (tangent orientation rows).getD column 0 = 0) ↔
      (matrixOf rows rows.length (rows.length + 1)).rank < rows.length := by
  rw [← minors_vanish_iff]
  refine forall_congr' fun column => ?_
  have sign : orientation * (-1) ^ (column : Nat) ≠ 0 := mul_ne_zero bearing (pow_ne_zero _ (by norm_num))
  rw [cofactor_eq, mul_eq_zero_iff_left sign]

theorem tangent_in_kernel (orientation : ℝ) (rows : List (List ℝ)) :
    (matrixOf rows rows.length (rows.length + 1)).mulVec
      (fun column => (tangent orientation rows).getD column 0) = 0 := by
  funext row
  have solved := tangent_orthogonal orientation rows rows[row] (List.getElem_mem row.isLt)
  rw [Finset.sum_range] at solved
  have same : rows.getD row [] = rows[row] := List.getD_eq_getElem rows [] row.isLt
  refine Eq.trans ?_ solved
  simp only [Matrix.mulVec, dotProduct, matrixOf, same]

end NormalForm.Exact
