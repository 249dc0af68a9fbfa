import NormalForm.Binary64.Scalar
import NormalForm.Ranking

/-!
Pairs of a value and a strategy, best first. Where the values are in a linear order so are the pairs, apart
from pairs of one strategy, and sorting puts them in it.
-/

set_option autoImplicit false

namespace NormalForm

instance : Std.TransCmp (Arithmetic.order (α := Float)) :=
  inferInstanceAs (Std.TransCmp (compareOn Binary64.rank))

namespace Ranking

variable {α : Type} [Arithmetic α]

theorem ranks_before_cases (a b : α × Nat) : ranksBefore a b = true ↔
    Arithmetic.order b.1 a.1 = .lt ∨ Arithmetic.order b.1 a.1 = .eq ∧ a.2 ≤ b.2 := by
  rw [ranksBefore]
  cases Arithmetic.order b.1 a.1 with
  | lt => simp
  | eq => simp
  | gt => simp

variable [Std.TransCmp (Arithmetic.order (α := α))]

theorem ranks_before_trans (a b c : α × Nat) (left : ranksBefore a b = true) (right : ranksBefore b c = true) :
    ranksBefore a c = true := by
  rw [ranks_before_cases] at left right ⊢
  rcases left with above | ⟨level, first⟩
  · left
    rcases right with below | ⟨level, -⟩
    · exact Std.TransCmp.lt_trans below above
    · exact Std.TransCmp.lt_of_eq_of_lt level above
  · rcases right with below | ⟨further, second⟩
    · exact .inl (Std.TransCmp.lt_of_lt_of_eq below level)
    · exact .inr ⟨Std.TransCmp.eq_trans further level, Nat.le_trans first second⟩

theorem ranks_before_total (a b : α × Nat) : (ranksBefore a b || ranksBefore b a) = true := by
  rw [Bool.or_eq_true, ranks_before_cases, ranks_before_cases]
  cases order : Arithmetic.order b.1 a.1 with
  | lt => exact .inl (.inl rfl)
  | gt => exact .inr (.inl (Std.OrientedCmp.lt_of_gt order))
  | eq =>
      rcases Nat.le_total a.2 b.2 with first | second
      · exact .inl (.inr ⟨rfl, first⟩)
      · exact .inr (.inr ⟨Std.OrientedCmp.eq_symm order, second⟩)

theorem ranks_before_antisymm (a b : α × Nat) (left : ranksBefore a b = true) (right : ranksBefore b a = true) :
    a.2 = b.2 := by
  rw [ranks_before_cases] at left right
  rcases left with above | ⟨level, first⟩
  · have below := Std.OrientedCmp.gt_of_lt above
    simp [below] at right
  · have back := Std.OrientedCmp.eq_symm level
    simp only [back, reduceCtorEq, true_and, false_or] at right
    exact Nat.le_antisymm first right

theorem sorted_by_rank (pairs : List (α × Nat)) :
    (pairs.mergeSort ranksBefore).Pairwise fun a b => ranksBefore a b = true :=
  List.pairwise_mergeSort ranks_before_trans ranks_before_total pairs

end Ranking

end NormalForm
