import NormalForm.Proofs.Exact.Derivative
import NormalForm.Proofs.Exact.Kernel
import NormalForm.Proofs.Exact.Mass

/-!
The matrix of a path that ranks all strategies strictly. But for the last column every row has one entry that is
not zero: the sum of a player's rank weights, in a place that only the rankings decide. So long as lambda is
positive the square matrix is regular, and its determinant keeps its sign.
-/

set_option autoImplicit false

namespace NormalForm.Path

-- Every class has one member.
def Strict (path : Path ℝ) : Prop :=
  ∀ ranking ∈ path.rankings, ∀ members ∈ ranking.classes, members.length = 1

/-! One entry in every row. -/

theorem single_entry (path : Path ℝ) (player strategy ranked : Nat) (row : List ℝ)
    (isMass : MassRow path player [strategy] ranked row) (column : Nat) (inside : column < path.table.dims.total) :
    row.getD column 0 = if column = path.table.dims.offset player + strategy
      then rankWeights path.lambda (path.table.strategyCount player) else 0 := by
  rw [List.getD_eq_getElem?_getD, isMass.strategies column inside, Option.getD_some, Exact.zero_eq, List.map_singleton]
  simp only [List.mem_singleton]

theorem slopes_unique (path : Path ℝ) (equation : Equation) (row other : List ℝ)
    (left : path.Differentiates equation row) (right : path.Differentiates equation other) (column : Nat)
    (inside : column < path.table.dims.total) : row.getD column 0 = other.getD column 0 := by
  obtain ⟨before, after, read, moved, change⟩ := left.profile column inside 1
  obtain ⟨sameBefore, sameAfter, readAgain, movedAgain, sameChange⟩ := right.profile column inside 1
  cases read.symm.trans readAgain
  cases moved.symm.trans movedAgain
  linarith

theorem strict_row (path : Path ℝ) (valid : path.Valid) (player strategy ranked : Nat) (row : List ℝ)
    (below : strategy < path.table.strategyCount player)
    (slopes : path.Differentiates (.mass player [strategy] ranked) row) (column : Nat)
    (inside : column < path.table.dims.total) :
    row.getD column 0 = if column = path.table.dims.offset player + strategy
      then rankWeights path.lambda (path.table.strategyCount player) else 0 := by
  have known := path.table.strategy_known player strategy below
  have members : ∀ other ∈ [strategy], other < path.table.strategyCount player :=
    fun other listed => List.mem_singleton.mp listed ▸ below
  obtain ⟨mass, -, isMass⟩ := mass_row_succeeds path valid player [strategy] ranked
    (List.getElem?_eq_some_iff.mp known).1 members
  rw [← single_entry path player strategy ranked mass isMass column inside]
  exact slopes_unique path _ row mass slopes
    (mass_row_differentiates path valid player ranked [strategy] mass isMass (List.nodup_singleton _) members) column
    inside

theorem strict_ranked_equations (player start : Nat) (classes : List (List Nat))
    (strict : ∀ members ∈ classes, members.length = 1) (equation : Equation)
    (listed : equation ∈ rankedEquations player start classes) :
    ∃ strategy ranked, [strategy] ∈ classes ∧ equation = .mass player [strategy] ranked := by
  induction classes generalizing start with
  | nil => cases listed
  | cons members worse ih =>
      obtain ⟨strategy, rfl⟩ := List.length_eq_one_iff.mp (strict members List.mem_cons_self)
      rw [rankedEquations, List.mem_append] at listed
      rcases listed with here | later
      · exact ⟨strategy, start, List.mem_cons_self, List.mem_singleton.mp here⟩
      · obtain ⟨other, ranked, below, same⟩ :=
          ih _ (fun members member => strict members (List.mem_cons_of_mem _ member)) later
        exact ⟨other, ranked, List.mem_cons_of_mem _ below, same⟩

theorem strict_equations (path : Path ℝ) (valid : path.Valid) (strict : path.Strict) (equation : Equation)
    (listed : equation ∈ path.equations) : ∃ player strategy ranked,
      equation = .mass player [strategy] ranked ∧ strategy < path.table.strategyCount player := by
  obtain ⟨⟨ranking, player⟩, placed, inClasses⟩ := List.mem_flatMap.mp listed
  have found := List.mem_zipIdx_iff_getElem?.mp placed
  obtain ⟨-, ranked⟩ := valid_ranking path valid player ranking found
  obtain ⟨strategy, rank, member, same⟩ := strict_ranked_equations player 0 ranking.classes
    (strict ranking (List.mem_of_getElem? found)) equation inClasses
  exact ⟨player, strategy, rank, same,
    Ranking.valid_member_lt ranking _ ranked [strategy] member strategy (List.mem_singleton_self _)⟩

/-! The square matrix. -/

theorem last_entry (orientation : ℝ) (rows : List (List ℝ)) (n : Nat) (height : rows.length = n) :
    (tangent orientation rows).getD n 0 = orientation * (-1) ^ n * (matrixOf rows n n).det := by
  subst height
  have last := Exact.cofactor_eq orientation rows (Fin.last rows.length)
  rwa [Fin.succAbove_last, Fin.val_last] at last

theorem strict_regular (path : Path ℝ) (valid : path.Valid) (strict : path.Strict) (above : 0 < path.lambda)
    (rows : List (List ℝ)) (built : path.jacobian = .ok rows) :
    (matrixOf rows path.table.dims.total path.table.dims.total).det ≠ 0 := by
  obtain ⟨same, sameRun, height, -, mass⟩ := jacobian_succeeds path valid
  cases built.symm.trans sameRun
  intro singular
  obtain ⟨vector, nonzero, kernel⟩ := Matrix.exists_mulVec_eq_zero_iff.mpr singular
  apply nonzero
  funext column
  obtain ⟨player, strategy, count, known, below, placed⟩ :=
    Dimensions.place_exists path.table.dims column column.isLt
  have counted := path.table.strategy_count_known player count known
  have playerInside : player < path.rankings.length :=
    valid.rankings.length_eq ▸ (List.getElem?_eq_some_iff.mp known).1
  have found := List.getElem?_eq_getElem playerInside
  obtain ⟨-, ranked⟩ := valid_ranking path valid player _ found
  obtain ⟨members, listed, member⟩ := List.mem_flatten.mp ((ranked.covers strategy).mpr (counted.symm ▸ below))
  obtain ⟨only, rfl⟩ := List.length_eq_one_iff.mp (strict _ (List.getElem_mem playerInside) members listed)
  cases List.mem_singleton.mp member
  obtain ⟨rank, ranks⟩ := List.mem_iff_getElem?.mp listed
  obtain ⟨row, inRows, isMass⟩ := mass player _ rank [strategy] found ranks
  obtain ⟨place, placeInside, rfl⟩ := List.mem_iff_getElem.mp inRows
  have solved := congrFun kernel ⟨place, height ▸ placeInside⟩
  have entries (other : Fin path.table.dims.total) :
      matrixOf rows path.table.dims.total path.table.dims.total ⟨place, height ▸ placeInside⟩ other * vector other =
        if other = column then rankWeights path.lambda (path.table.strategyCount player) * vector other else 0 := by
    have read : matrixOf rows path.table.dims.total path.table.dims.total ⟨place, height ▸ placeInside⟩ other =
        rows[place].getD other 0 := by
      rw [matrixOf, List.getD_eq_getElem _ _ placeInside]
    rw [read, single_entry path player strategy _ _ isMass other other.isLt, ← placed, ite_mul, zero_mul]
    simp only [Fin.ext_iff]
  rw [Matrix.mulVec, dotProduct, Finset.sum_congr rfl fun other _ => entries other, Finset.sum_ite_eq',
    if_pos (Finset.mem_univ column)] at solved
  have positive := Exact.weights_positive path.lambda _ above (counted.symm ▸ Nat.zero_lt_of_lt below)
  exact (mul_eq_zero.mp solved).resolve_left positive.ne'

-- Two rows for one equation are multiples of each other, as far as the strategies go.
theorem strict_multiple (path other : Path ℝ) (valid : path.Valid) (otherValid : other.Valid) (strict : path.Strict)
    (table : other.table = path.table) (above : 0 < path.lambda) (otherAbove : 0 < other.lambda) (equation : Equation)
    (listed : equation ∈ path.equations) (row result : List ℝ) (slopes : path.Differentiates equation row)
    (otherSlopes : other.Differentiates equation result) : ∃ factor : ℝ, 0 < factor ∧
      ∀ column < path.table.dims.total, result.getD column 0 = factor * row.getD column 0 := by
  obtain ⟨player, strategy, ranked, rfl, below⟩ := strict_equations path valid strict equation listed
  have positive := Exact.weights_positive path.lambda _ above (Nat.zero_lt_of_lt below)
  have otherPositive := Exact.weights_positive other.lambda _ otherAbove (Nat.zero_lt_of_lt below)
  refine ⟨_, div_pos otherPositive positive, fun column inside => ?_⟩
  have entry := strict_row path valid player strategy ranked row below slopes column inside
  have otherEntry := strict_row other otherValid player strategy ranked result (table.symm ▸ below) otherSlopes column
    (table.symm ▸ inside)
  rw [entry, otherEntry, table, mul_ite, mul_zero, div_mul_cancel₀ _ positive.ne']

theorem strict_determinants (path other : Path ℝ) (valid : path.Valid) (otherValid : other.Valid)
    (strict : path.Strict) (rankings : other.rankings = path.rankings) (table : other.table = path.table)
    (above : 0 < path.lambda) (otherAbove : 0 < other.lambda) (rows results : List (List ℝ))
    (built : path.jacobian = .ok rows) (otherBuilt : other.jacobian = .ok results) : ∃ k : ℝ, 0 < k ∧
      (matrixOf results path.table.dims.total path.table.dims.total).det =
        k * (matrixOf rows path.table.dims.total path.table.dims.total).det := by
  have height := jacobian_height path rows built
  have equations : other.equations = path.equations := by rw [Path.equations, Path.equations, rankings]
  obtain ⟨size, each⟩ := List.forall₂_iff_get.mp (jacobian_differentiates path valid rows built)
  have otherRows := jacobian_differentiates other otherValid results otherBuilt
  rw [equations] at otherRows
  obtain ⟨otherSize, otherEach⟩ := List.forall₂_iff_get.mp otherRows
  have multiple (place : Fin path.table.dims.total) : ∃ factor : ℝ, 0 < factor ∧ ∀ column : Fin path.table.dims.total,
      matrixOf results path.table.dims.total path.table.dims.total place column =
        factor * matrixOf rows path.table.dims.total path.table.dims.total place column := by
    have inRows : (place : Nat) < rows.length := height.symm ▸ place.isLt
    have inEquations : (place : Nat) < path.equations.length := size.symm ▸ inRows
    have inResults : (place : Nat) < results.length := otherSize ▸ inEquations
    obtain ⟨factor, positive, scaled⟩ := strict_multiple path other valid otherValid strict table above otherAbove _
      (List.get_mem _ _) _ _ (each place inEquations inRows) (otherEach place inEquations inResults)
    refine ⟨factor, positive, fun column => ?_⟩
    rw [matrixOf, matrixOf, List.getD_eq_getElem _ _ inRows, List.getD_eq_getElem _ _ inResults]
    exact scaled column column.isLt
  choose factor positive scaled using multiple
  refine ⟨∏ place, factor place, Finset.prod_pos fun place _ => positive place, ?_⟩
  rw [← Matrix.det_mul_column]
  exact congrArg Matrix.det (Matrix.ext scaled)

-- The last entry of the tangent is not zero, and does not change its sign while the rankings stay.
theorem strict_last_entries (path other : Path ℝ) (valid : path.Valid) (otherValid : other.Valid)
    (strict : path.Strict) (rankings : other.rankings = path.rankings) (table : other.table = path.table)
    (above : 0 < path.lambda) (otherAbove : 0 < other.lambda) (rows results : List (List ℝ))
    (built : path.jacobian = .ok rows) (otherBuilt : other.jacobian = .ok results) : ∃ k : ℝ, 0 < k ∧
      ∀ orientation, (tangent orientation results).getD path.table.dims.total 0 =
        k * (tangent orientation rows).getD path.table.dims.total 0 := by
  have height := jacobian_height path rows built
  have otherHeight := jacobian_height other results otherBuilt
  rw [table] at otherHeight
  obtain ⟨k, positive, scaled⟩ := strict_determinants path other valid otherValid strict rankings table above otherAbove
    rows results built otherBuilt
  refine ⟨k, positive, fun orientation => ?_⟩
  rw [last_entry orientation rows _ height, last_entry orientation results _ otherHeight, scaled, mul_left_comm]

theorem strict_last_nonzero (path : Path ℝ) (valid : path.Valid) (strict : path.Strict) (above : 0 < path.lambda)
    (rows : List (List ℝ)) (built : path.jacobian = .ok rows) (orientation : ℝ) (bearing : orientation ≠ 0) :
    (tangent orientation rows).getD path.table.dims.total 0 ≠ 0 := by
  rw [last_entry orientation rows _ (jacobian_height path rows built)]
  have sign : (-1 : ℝ) ^ path.table.dims.total ≠ 0 := pow_ne_zero _ (neg_ne_zero.mpr one_ne_zero)
  exact mul_ne_zero (mul_ne_zero bearing sign) (strict_regular path valid strict above rows built)

end NormalForm.Path
