import Mathlib.Data.List.GetD
import NormalForm.Path.Step
import NormalForm.Proofs.Exact.Arithmetic

/-!
The cofactors of a matrix with one column more than rows are a null vector: a row against them is the
determinant of the matrix with that row put on top, which then has two equal rows.
-/

set_option autoImplicit false

namespace NormalForm.Exact

open NormalForm.Path

theorem alternating_eq (column : Nat) : (alternating column : ℝ) = (-1) ^ column := by
  rw [alternating]
  by_cases even : column % 2 = 0
  · rw [if_pos even, one_eq, (Nat.even_iff.mpr even).neg_one_pow]
  · rw [if_neg even, one_eq, (Nat.odd_iff.mpr (by omega)).neg_one_pow]

theorem tangent_entry (orientation : ℝ) (rows : List (List ℝ)) (column : Nat)
    (inside : column < rows.length + 1) :
    (tangent orientation rows).getD column 0 =
      orientation * (-1) ^ column * Scalar.det (rows.map fun row => row.eraseIdx column) := by
  rw [tangent, List.getD_eq_getElem?_getD, List.getElem?_map, List.getElem?_range inside, Option.map_some,
    Option.getD_some, alternating_eq]

theorem erased_entry {n : Nat} (row : List ℝ) (column : Fin (n + 1)) (other : Fin n) :
    (row.eraseIdx column).getD other 0 = row.getD (column.succAbove other) 0 := by
  rw [List.getD_eq_getElem?_getD, List.getD_eq_getElem?_getD, List.getElem?_eraseIdx, Fin.succAbove]
  by_cases before : (other : Nat) < column
  · have small : other.castSucc < column := before
    rw [if_pos before, if_pos small, Fin.val_castSucc]
  · have large : ¬ other.castSucc < column := before
    rw [if_neg before, if_neg large, Fin.val_succ]

theorem minor_eq (top : List ℝ) (rows : List (List ℝ)) (column : Fin (rows.length + 1)) :
    ((matrixOf (top :: rows) (rows.length + 1) (rows.length + 1)).submatrix Fin.succ column.succAbove).det =
      Scalar.det (rows.map fun row => row.eraseIdx column) := by
  have size : (rows.map fun row => row.eraseIdx column).length = rows.length := List.length_map _
  have same : (matrixOf (top :: rows) (rows.length + 1) (rows.length + 1)).submatrix Fin.succ
      column.succAbove = matrixOf (rows.map fun row => row.eraseIdx column) rows.length rows.length := by
    ext row other
    have upper : (top :: rows).getD row.succ [] = rows[row] := by
      rw [Fin.val_succ, List.getD_cons_succ]
      exact List.getD_eq_getElem rows [] row.isLt
    have lower : (rows.map fun row => row.eraseIdx column).getD row [] = rows[row].eraseIdx column := by
      rw [List.getD_eq_getElem _ _ (size.symm ▸ row.isLt), List.getElem_map]
      rfl
    simp only [Matrix.submatrix_apply, matrixOf, upper, lower]
    exact (erased_entry _ column other).symm
  rw [same, det_eq, size]

theorem tangent_orthogonal (orientation : ℝ) (rows : List (List ℝ)) (row : List ℝ) (member : row ∈ rows) :
    ∑ column ∈ Finset.range (rows.length + 1),
      row.getD column 0 * (tangent orientation rows).getD column 0 = 0 := by
  obtain ⟨place, inside, found⟩ := List.mem_iff_getElem.mp member
  let doubled := matrixOf (row :: rows) (rows.length + 1) (rows.length + 1)
  have repeated : doubled 0 = doubled (Fin.succ ⟨place, inside⟩) := by
    ext column
    simp [doubled, matrixOf, found, inside]
  have vanishes : doubled.det = 0 := Matrix.det_zero_of_row_eq (Fin.succ_ne_zero _).symm repeated
  rw [Matrix.det_succ_row_zero] at vanishes
  rw [Finset.sum_range]
  have terms : ∀ column : Fin (rows.length + 1),
      row.getD column 0 * (tangent orientation rows).getD column 0 =
        orientation * ((-1) ^ (column : Nat) * doubled 0 column *
          (doubled.submatrix Fin.succ column.succAbove).det) := by
    intro column
    rw [tangent_entry orientation rows column column.isLt, minor_eq]
    have top : doubled 0 column = row.getD column 0 := rfl
    rw [top]
    ring
  rw [Finset.sum_congr rfl fun column _ => terms column, ← Finset.mul_sum, vanishes, mul_zero]

end NormalForm.Exact
