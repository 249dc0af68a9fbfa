import NormalForm.Proofs.Binary64.Comparison
import NormalForm.Proofs.Ranking.Sorting
import NormalForm.Proofs.Ranking.Validity

/-!
Ties in a ranking by payoff. Values are sorted by a linear order in which a number has no equal but itself,
so that strategies of one value stand together, and two of a finite value tie whatever else there is.
-/

set_option autoImplicit false

namespace NormalForm

namespace Ranking

theorem rank_descends (a b : Float × Nat) (before : ranksBefore a b = true) :
    Binary64.rank b.1 ≤ Binary64.rank a.1 := by
  rcases (ranks_before_cases a b).mp before with above | ⟨level, -⟩
  · exact (compare_lt_iff_lt.mp above).le
  · exact (compare_eq_iff_eq.mp level).le

-- A value that comes again comes again at once, and leaves nothing to its neighbour.
theorem first_tie_at_top (tolerance : Float) (tolerant : Arithmetic.le Arithmetic.zero tolerance = true)
    (top : Float × Nat) (rest : List (Float × Nat)) (finite : top.1.isFinite = true)
    (ordered : (top :: rest).Pairwise fun a b => ranksBefore a b = true) (strategy : Nat)
    (again : (top.1, strategy) ∈ rest) : ∃ tie, firstTie? tolerance (top :: rest) = some tie := by
  cases rest with
  | nil => cases again
  | cons next later =>
      obtain ⟨below, ordered⟩ := List.pairwise_cons.mp ordered
      obtain ⟨above, -⟩ := List.pairwise_cons.mp ordered
      have descends := rank_descends _ _ (below next List.mem_cons_self)
      have returns : Binary64.rank top.1 ≤ Binary64.rank next.1 := by
        rcases List.mem_cons.mp again with here | there
        · rw [← here]
        · exact rank_descends next (top.1, strategy) (above _ there)
      have same : next.1 = top.1 :=
        Binary64.eq_of_rank next.1 top.1 (Binary64.number_of_finite _ finite) (by omega)
      have gap : Arithmetic.le (top.1 - next.1) tolerance = true := by
        rw [same]
        rw [Binary64.float_le_iff] at tolerant ⊢
        obtain ⟨-, number, upper⟩ := tolerant
        have nothing := Binary64.sub_self_zero top.1 finite
        refine ⟨?_, number, ?_⟩
        · rw [Binary64.IsNumber, nothing]
          exact Float.Model.UnpackedFloat.noConfusion
        · rwa [nothing]
      exact ⟨_, by rw [firstTie?, if_pos gap]⟩

theorem first_tie_cons (tolerance : Float) (top : Float × Nat) (rest : List (Float × Nat))
    (tied : ∃ tie, firstTie? tolerance rest = some tie) : ∃ tie, firstTie? tolerance (top :: rest) = some tie := by
  obtain ⟨tie, found⟩ := tied
  cases rest with
  | nil => cases found
  | cons next later =>
      rw [firstTie?]
      split
      · exact ⟨_, rfl⟩
      · exact ⟨tie, found⟩

-- The induction goes down the sorted values to the first of the two strategies.
theorem first_tie_of_equals (tolerance value : Float) (finite : value.isFinite = true)
    (tolerant : Arithmetic.le Arithmetic.zero tolerance = true) (first second : Nat) (different : first ≠ second)
    (sorted : List (Float × Nat)) (ordered : sorted.Pairwise fun a b => ranksBefore a b = true)
    (one : (value, first) ∈ sorted) (other : (value, second) ∈ sorted) :
    ∃ tie, firstTie? tolerance sorted = some tie := by
  induction sorted with
  | nil => cases one
  | cons top rest ih =>
      have further := (List.pairwise_cons.mp ordered).2
      rcases List.mem_cons.mp one with rfl | here
      · rcases List.mem_cons.mp other with same | there
        · cases same
          exact absurd rfl different
        · exact first_tie_at_top tolerance tolerant _ rest finite ordered second there
      · rcases List.mem_cons.mp other with rfl | there
        · exact first_tie_at_top tolerance tolerant _ rest finite ordered first here
        · exact first_tie_cons tolerance top rest (ih further here there)

theorem by_payoff_of_equals (tolerance value : Float) (finite : value.isFinite = true)
    (tolerant : Arithmetic.le Arithmetic.zero tolerance = true) (values : List Float) (first second : Nat)
    (different : first ≠ second) (one : values[first]? = some value) (other : values[second]? = some value) :
    ∃ tie, byPayoff values tolerance = .ok (.error tie) := by
  have sorted (strategy : Nat) (read : values[strategy]? = some value) : (value, strategy) ∈ descending values := by
    rw [descending, List.mem_mergeSort, List.mem_zipIdx_iff_getElem?]
    exact read
  obtain ⟨⟨a, b⟩, tie⟩ := first_tie_of_equals tolerance value finite tolerant first second different (descending values)
    (sorted_by_rank values.zipIdx) (sorted first one) (sorted second other)
  exact ⟨(min a b, max a b), by simp only [byPayoff, tie]⟩

end Ranking

end NormalForm
