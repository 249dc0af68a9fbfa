import Mathlib.Tactic.FieldSimp
import Mathlib.LinearAlgebra.Matrix.Notation
import NormalForm.Proofs.Exact.Crossing
import NormalForm.Proofs.Exact.Units

/-!
A merge whose heading counts in one unit of payoff and not in another. Player 0 has one class of both
strategies, and the step can only shift weight between them while lambda stands still. With small payoffs
the heading turns the walk around; with payoffs multiplied by a large constant it is below the
threshold, and the walk goes on.
-/

set_option autoImplicit false

namespace NormalForm.Reversal

/-! The game. -/

def history (high low : Rat) : List Game.Operation :=
  Crossing.cell 1 [0, 0] high 0 ++ Crossing.cell 2 [1, 0] 0 0 ++ Crossing.cell 3 [0, 1] 0 low ++
    Crossing.cell 4 [1, 1] low low

theorem made_small : ∃ game, (Game.blank [2, 2]).performAll (history 10 1) = .ok game ∧
    game.Shape [2, 2] [[10, 0], [0, 0], [0, 1], [1, 1]] :=
  ⟨_, rfl, rfl, rfl, rfl⟩

theorem made_large : ∃ game, (Game.blank [2, 2]).performAll (history 1000000000 100000000) = .ok game ∧
    game.Shape [2, 2] [[1000000000, 0], [0, 0], [0, 100000000], [100000000, 100000000]] :=
  ⟨_, rfl, rfl, rfl, rfl⟩

noncomputable def real (values : List Rat) : List ℝ := values.map Arithmetic.ofRat

@[simp] theorem real_nil : real [] = [] := rfl

@[simp] theorem real_cons (value : Rat) (rest : List Rat) : real (value :: rest) = (value : ℝ) :: real rest := rfl

noncomputable def table : PayoffTable ℝ :=
  { dims := [2, 2]
    cells := #[some (real [10, 0]), some (real [0, 0]), some (real [0, 1]), some (real [1, 1])]
    scale := Arithmetic.ofRat 10 }

theorem scale_eq : table.scale = 10 := Rat.cast_ofNat 10

theorem of_game (game : Game) (shape : game.Shape [2, 2] [[10, 0], [0, 0], [0, 1], [1, 1]]) :
    (PayoffTable.ofGame game : PayoffTable ℝ) = table := by
  have outcome (place : Nat) : game.outcomes[place]?.map Outcome.payoffs =
      ([[10, 0], [0, 0], [0, 1], [1, 1]] : List (List Rat))[place]? := by
    rw [← shape.payoffs, List.getElem?_map, Array.getElem?_toList]
  have cells : (PayoffTable.ofGame game : PayoffTable ℝ).cells = table.cells := by
    apply Array.ext'
    rw [Crossing.of_game_cells, shape.cells]
    simp [outcome, table, Arithmetic.ofRat, List.range_succ]
  have scale : (game.payoffScale : ℝ) = table.scale := by
    rw [Game.payoff_scale_eq, shape.payoffs, scale_eq]
    simp [Arithmetic.largest]
  exact PayoffTable.mk.injEq .. ▸ ⟨shape.dims, cells, scale⟩

-- Both strategies of player 0 have just been merged.
noncomputable def path : Path ℝ :=
  { profile := { table, probabilities := real [1 / 2, 1 / 2, 1 / 2, 1 / 2] }
    lambda := 1
    orientation := -1
    rankings := [⟨[[0, 1]]⟩, ⟨[[1], [0]]⟩]
    pending := some (.merged 0 [0])
    merges := 1
    splits := 0 }

theorem probabilities_eq : path.profile.probabilities = [1 / 2, 1 / 2, 1 / 2, 1 / 2] := by
  norm_num [path]

theorem path_valid : path.Valid := by
  have whole : Ranking.Valid ⟨[[0, 1]]⟩ 2 := by
    refine ⟨by decide, by decide, List.pairwise_singleton .., ?_⟩
    intro strategy
    simp only [List.flatten_cons, List.flatten_nil, List.append_nil, List.mem_cons, List.not_mem_nil, or_false]
    omega
  refine ⟨⟨⟨rfl, ?_⟩, rfl⟩, ?_, ?_, ?_⟩
  · intro payoffs member
    simp only [path, table, List.mem_toArray] at member
    fin_cases member <;> rfl
  · exact Dimensions.words_of_count [2, 2] (by decide)
  · exact .cons whole (.cons (Ranking.singletons_valid [1, 0] 2 (by decide)) .nil)
  · rintro change ⟨⟩
    exact ⟨by decide, fun strategy member => by fin_cases member; decide⟩

theorem derivative_eq (strategy opposed : Nat) (earned : Rat) (inside : strategy < 2) (below : opposed < 2)
    (paid : table.payoff (strategy + 2 * opposed) 0 = .ok (earned : ℝ)) :
    path.profile.derivative 0 strategy 1 opposed = .ok (earned : ℝ) := by
  have fixed : Dimensions.fix [2, 2] [(0, strategy), (1, opposed)] = .ok [some strategy, some opposed] := by
    simp [Dimensions.fix, Dimensions.fixOne, entry, inside, below]
  have vectors : path.profile.pureVectors [some strategy, some opposed] = [[strategy, opposed]] := rfl
  have term := path.profile.term_eq 0 [some strategy, some opposed] [strategy, opposed] [] earned rfl paid
  rw [List.prod_nil, one_mul] at term
  have dims : path.profile.table.dims = [2, 2] := rfl
  have other : ¬ (1 : Nat) = 0 := one_ne_zero
  rw [Mixed.derivative, if_neg other, Mixed.conditional_eq, dims, fixed, ok_bind, Mixed.expected, vectors, List.mapM_cons,
    List.mapM_nil, term]
  simp

noncomputable def rows : List (List ℝ) :=
  [real [2, 2, 0, 0, 0], real [0, 0, 10, -1, 0], real [0, 0, 0, 2, 1 / 2], real [0, 0, 2, 0, -(1 / 2)]]

theorem rows_eq : path.jacobian = .ok rows := by
  have dims : path.profile.table.dims = [2, 2] := rfl
  have counts (player : Nat) (inside : player < 2) : path.profile.table.strategyCount player = 2 := by
    interval_cases player <;> rfl
  have weights : Path.rankWeights (1 : ℝ) 2 = 2 := by
    simp [Path.rankWeights, List.range_succ]
    norm_num
  have upper := derivative_eq 0 0 10 (by decide) (by decide) rfl
  have lower := derivative_eq 1 0 0 (by decide) (by decide) rfl
  have upperToo := derivative_eq 0 1 0 (by decide) (by decide) rfl
  have lowerToo := derivative_eq 1 1 1 (by decide) (by decide) rfl
  have rankings : path.rankings = [⟨[[0, 1]]⟩, ⟨[[1], [0]]⟩] := rfl
  have lambda : path.lambda = 1 := rfl
  have ranks : List.range' 0 2 = [0, 1] := rfl
  have total : Dimensions.total [2, 2] = 4 := rfl
  have firstOffset : Dimensions.offset [2, 2] 0 = 0 := rfl
  have secondOffset : Dimensions.offset [2, 2] 1 = 2 := rfl
  simp [Path.jacobian, Path.playerRows, Path.classRows, Path.massRow, Path.gapRow, Path.gapEntries, Path.table, entry,
    Ranking.strategyCount, Ranking.size, Ranking.members, Ranking.rankOffset, Ranking.representative, dims, counts,
    Mixed.offset, Mixed.players, firstOffset, secondOffset, total, Mixed.probability, probabilities_eq, rankings,
    lambda, weights, Path.setEntry, List.range_succ, ranks, Path.rankDerivative, List.replicate, upper, lower, upperToo,
    lowerToo, rows]
  norm_num

theorem minor_eq : Scalar.det (rows.map fun row => row.eraseIdx 0) = (-22 : ℝ) := by
  have minor : matrixOf (rows.map fun row => row.eraseIdx 0) 4 4 =
      !![2, 0, 0, 0; 0, 10, -1, 0; 0, 0, 2, 1 / 2; 0, 2, 0, -(1 / 2)] := by
    ext row column
    fin_cases row <;> fin_cases column <;> simp [matrixOf, rows]
  have size : (rows.map fun row => row.eraseIdx 0).length = 4 := rfl
  rw [Exact.det_eq, size, minor, Matrix.det_succ_row_zero, Fin.sum_univ_four]
  simp [Matrix.det_fin_three, Fin.succAbove]
  norm_num

-- The rows determine the direction up to its first entry.
theorem tangent_eq : Path.tangent (-1) rows = [22, -22, 0, 0, 0] := by
  have first : (Path.tangent (-1) rows).getD 0 0 = 22 := by
    rw [Exact.tangent_entry (-1) rows 0 (by decide), minor_eq]
    norm_num
  have solved := Exact.tangent_orthogonal (-1) rows
  obtain ⟨a, b, c, d, e, same⟩ : ∃ a b c d e : ℝ, Path.tangent (-1) rows = [a, b, c, d, e] := ⟨_, _, _, _, _, rfl⟩
  rw [same] at first solved ⊢
  have size : rows.length + 1 = 5 := rfl
  simp only [size, Finset.sum_range_succ, Finset.sum_range_zero] at solved
  simp [rows] at solved first
  obtain ⟨mass, gap, upper, lower⟩ := solved
  subst first
  have left : b = -22 := by linarith
  have up : c = 0 := by linarith
  have down : d = 0 := by linarith
  have still : e = 0 := by linarith
  rw [left, up, down, still]

/-! The heading counts, or does not. -/

theorem heading_eq : path.heading (.merged 0 [0]) [22, -22, 0, 0, 0] = .ok (-22) := by
  have place : path.profile.offset 0 = .ok 0 := rfl
  simp [Path.heading, place, entry]

theorem threshold_eq : path.threshold [22, -22, 0, 0, 0] = 22 / 100000000 := by
  have small : (Path.headingTolerance : ℝ) = ((1 / 1000000000 : Rat) : ℝ) := rfl
  have scale : path.table.scale = 10 := scale_eq
  have sizes : ([22, -22, 0, 0, 0] : List ℝ).map Arithmetic.abs = [22, 22, 0, 0, 0] := by
    simp [Arithmetic.abs]
  have largest : Arithmetic.largest ([22, 22, 0, 0, 0] : List ℝ) = 22 := by
    simp [Arithmetic.largest]
  rw [Path.threshold, small, scale, sizes, largest]
  norm_num

theorem fall_eq : Path.fallOfLambda ([22, -22, 0, 0, 0] : List ℝ) = 0 := by
  simp [Path.fallOfLambda]

theorem small_turns : path.orient [22, -22, 0, 0, 0] =
    .ok ⟨{ path with pending := none, orientation := 1 }, [-22, 22, 0, 0, 0], some (.merged 0 [0])⟩ := by
  have turns : path.Reverses (-22) [22, -22, 0, 0, 0] := by
    rw [Path.Reverses, threshold_eq]
    norm_num
  have orientation : -path.orientation = 1 := neg_neg 1
  rw [Path.orient_pending path _ _ rfl, heading_eq, ok_bind, if_pos turns, orientation]
  simp

theorem large_goes_on (other : PayoffTable ℝ) (multiplies : table.Multiplies 100000000 other) (k : ℝ)
    (positive : 0 < k) :
    (path.withTable other).orient (([22, -22, 0, 0, 0] : List ℝ).map fun entry => k * entry) =
      .ok ⟨{ path.withTable other with pending := none },
        ([22, -22, 0, 0, 0] : List ℝ).map fun entry => k * entry, none⟩ := by
  have rescaling := Exact.multiplication_rescales 100000000 (by norm_num)
  have keeps : ¬ (path.withTable other).Reverses (k * -22)
      (([22, -22, 0, 0, 0] : List ℝ).map fun entry => k * entry) := by
    have counts : |k * -22| ≤ k * (100000000 * (22 / 100000000)) := by
      rw [abs_mul, abs_of_pos positive]
      norm_num
    rw [Path.Reverses, Path.threshold_multiplied 100000000 k positive path other multiplies, threshold_eq,
      if_pos counts, Exact.fall_multiplied, fall_eq, mul_zero]
    exact lt_irrefl 0
  rw [Path.orient_pending (path.withTable other) _ (.merged 0 [0]) rfl,
    Path.heading_over _ rescaling path other multiplies.payoffs, Exact.heading_multiplied, heading_eq]
  exact if_neg keeps

/-! The step. -/

noncomputable def stride : Config ℝ :=
  { maxSteps := 1, lambdaFloor := 0, stepSize := Arithmetic.ofRat (1 / 2), reportInterval := 0, tieTolerance := 0,
    feasibilityTolerance := 0 }

theorem pace_eq : stride.stepSize = 1 / 2 := by norm_num [stride, Arithmetic.ofRat]

noncomputable def share : ℝ := stride.stepSize / Real.sqrt (Arithmetic.ofRat 968)

theorem share_eq : share = 1 / 2 / Real.sqrt 968 := by
  rw [share, pace_eq]
  norm_num [Arithmetic.ofRat]

theorem share_bounds : 0 < share ∧ 22 * share ≤ 1 / 2 := by
  have positive : 0 < Real.sqrt 968 := Real.sqrt_pos.mpr (by norm_num)
  have long : 22 ≤ Real.sqrt 968 := Real.le_sqrt_of_sq_le (by norm_num)
  rw [share_eq]
  refine ⟨div_pos one_half_pos positive, ?_⟩
  rw [← mul_div_assoc, div_le_iff₀ positive]
  linarith

theorem proceeds (start : Path ℝ) (valid : start.Valid) (dims : start.table.dims = [2, 2])
    (probabilities : start.profile.probabilities = [1 / 2, 1 / 2, 1 / 2, 1 / 2]) (lambda : start.lambda = 1) (r : ℝ)
    (size : |r| = 22) (events : List (Event ℝ)) :
    ∃ attempt, start.proceed [r, -r, 0, 0, 0] events 1 stride = .ok attempt ∧ attempt.failure = none ∧
      attempt.path.profile.probability 0 0 = .ok (1 / 2 + r * share) := by
  have square : r * r + r * r = 968 := by
    rw [← abs_mul_abs_self r, size]
    norm_num
  have length : Path.length [r, -r, 0, 0, 0] = Real.sqrt 968 := by
    rw [Path.length, ← square]
    simp [Arithmetic.sqrt]
  have positive : 0 < Real.sqrt 968 := Real.sqrt_pos.mpr (by norm_num)
  have some : Path.hasLength (Real.sqrt 968) = true := by
    simp [Path.hasLength, Arithmetic.isFinite]
  have total : start.table.dims.total = 4 := by
    rw [dims]
    rfl
  obtain ⟨rate, last, moved⟩ := start.move_succeeds valid [r, -r, 0, 0, 0] (1 / 2) (Real.sqrt 968) (by rw [total]; rfl)
  rw [total] at last moved
  cases last
  have shifted : List.zipWith (· + ·) start.profile.probabilities (([r, -r, 0, 0, 0].take 4).map fun t => t * share) =
      [1 / 2 + r * share, 1 / 2 - r * share, 1 / 2, 1 / 2] := by
    rw [probabilities]
    simp [sub_eq_add_neg]
  have movedValid := start.move_valid valid _ 1 (Path.steps_length [r, -r, 0, 0, 0] share start.table.dims.total (by
    rw [total]
    rfl))
  rw [total, shifted] at movedValid
  rw [← share_eq, shifted, lambda, zero_mul, add_zero] at moved
  have bound : |r * share| ≤ 1 / 2 := by
    rw [abs_mul, size, abs_of_pos share_bounds.1]
    exact share_bounds.2
  obtain ⟨low, high⟩ := abs_le.mp bound
  have lowest : 0 ≤ Arithmetic.smallest [1 / 2 + r * share, 1 / 2 - r * share, 1 / 2, 1 / 2] := by
    apply Exact.smallest_ge
    · linarith
    · simp only [List.forall_mem_cons]
      refine ⟨?_, ?_, ?_, List.forall_mem_nil _⟩ <;> linarith
  obtain ⟨result, repaired, -, profile⟩ := Path.repair_all_succeeds _ movedValid 1 _
    fun player listed => List.mem_range.mp listed
  have tolerance : stride.feasibilityTolerance = 0 := rfl
  have feasible : ¬ (Arithmetic.lt (Arithmetic.one + (0 : ℝ)) 1 ||
      Arithmetic.lt (Arithmetic.smallest [1 / 2 + r * share, 1 / 2 - r * share, 1 / 2, 1 / 2]) (-0)) = true := by
    simpa using lowest
  refine ⟨⟨result.1, events ++ result.2, none⟩, ?_, rfl, ?_⟩
  · simp only [Path.proceed, length, some, if_true, pace_eq, moved, ok_bind, tolerance, Path.infeasible?,
      if_neg feasible, repaired]
  · have count : result.1.profile.table.strategyCount 0 = 2 := by
      rw [profile]
      exact start.table.strategy_count_known 0 2 (by rw [dims]; rfl)
    rw [Mixed.probability, count, if_pos Nat.two_pos, profile]
    rfl

theorem small_step : ∃ attempt, path.advance 1 stride = .ok attempt ∧ attempt.failure = none ∧
    attempt.path.profile.probability 0 0 = .ok (1 / 2 - 22 * share) := by
  have settled : path.orient (Path.tangent path.orientation rows) = .ok _ :=
    tangent_eq.symm ▸ small_turns
  rw [Path.advance_proceeds path 1 stride rows _ rows_eq settled, sub_eq_add_neg, ← neg_mul]
  have valid : ({ path with pending := none, orientation := 1 } : Path ℝ).Valid :=
    ⟨path_valid.profile, path_valid.words, path_valid.rankings, nofun⟩
  have size : |(-22 : ℝ)| = 22 := by norm_num
  have run := proceeds _ valid rfl probabilities_eq rfl (-22) size [.reversed 1 (.merged 0 [0])]
  rwa [neg_neg] at run

theorem large_step (other : PayoffTable ℝ) (multiplies : table.Multiplies 100000000 other) (complete : other.Complete) :
    ∃ attempt, (path.withTable other).advance 1 stride = .ok attempt ∧ attempt.failure = none ∧
      attempt.path.profile.probability 0 0 = .ok (1 / 2 + 22 * share) := by
  have unit : (0 : ℝ) < 100000000 := by norm_num
  have dims : other.dims = [2, 2] := multiplies.payoffs.dims
  obtain ⟨results, built, each⟩ := Path.jacobian_over _ (Exact.multiplication_rescales 100000000 unit) path other
    multiplies.payoffs rows rows_eq
  obtain ⟨k, positive, tangents⟩ := Exact.tangent_multiplied path.orientation rows results
    (each.imp (Exact.multiple_of_rescaled 100000000 unit))
  have direction : Path.tangent path.orientation rows = [22, -22, 0, 0, 0] := tangent_eq
  rw [direction] at tangents
  have advanced := Path.advance_proceeds (path.withTable other) 1 stride results
    ⟨{ path.withTable other with pending := none }, Path.tangent path.orientation results, none⟩ built
    (tangents.symm ▸ large_goes_on other multiplies k positive)
  rw [advanced, tangents, Exact.proceed_multiplied k positive]
  have valid : ({ path.withTable other with pending := none } : Path ℝ).Valid := by
    refine ⟨⟨complete, ?_⟩, ?_, ?_, nofun⟩
    · exact path_valid.profile.length.trans (congrArg Dimensions.total dims.symm)
    · exact Dimensions.words_of_count _ (dims ▸ by decide)
    · exact dims ▸ path_valid.rankings
  have size : |(22 : ℝ)| = 22 := by norm_num
  exact proceeds _ valid dims probabilities_eq rfl 22 size []

end NormalForm.Reversal
