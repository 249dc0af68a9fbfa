import Mathlib.Tactic.FinCases
import Mathlib.Tactic.IntervalCases
import Mathlib.Tactic.Linarith
import Mathlib.Tactic.NormNum
import NormalForm.Proofs.Exact.Multilinear
import NormalForm.Proofs.Path.Order
import NormalForm.Proofs.Solver.Safety

/-!
A run in exact arithmetic, worked out. Player 0 has three strategies whose values cross at one point,
where player 1 plays the first strategy with probability two thirds. The first step of a run is long
enough to pass that point, so that all three change their order in it.
-/

set_option autoImplicit false

namespace NormalForm

/-! Values of strategies. -/

namespace Mixed

theorem strategy_value_eq (profile : Mixed ℝ) (player strategy : Nat) (choices : List (Option Nat))
    (terms : List ℝ) (fixed : profile.table.dims.fix [(player, strategy)] = .ok choices)
    (each : (profile.pureVectors choices).mapM (profile.term player choices) = .ok terms) :
    profile.strategyValue player strategy = .ok terms.sum := by
  rw [strategyValue, conditional_eq, fixed, ok_bind, expected, each, ok_bind, Exact.sum_eq]

end Mixed

-- A game whose cells have the outcomes in turn, by their payoffs.
structure Game.Shape (game : Game) (dims : Dimensions) (rows : List (List Rat)) : Prop where
  dims : game.dimensions = dims
  cells : game.cells.toList = (List.range rows.length).map some
  payoffs : game.outcomes.toList.map Outcome.payoffs = rows

namespace Crossing

/-! The game. -/

def cell (number : Nat) (strategies : List Nat) (first second : Rat) : List Game.Operation :=
  [.newOutcome ⟨number⟩, .setPayoff ⟨number⟩ 0 first, .setPayoff ⟨number⟩ 1 second,
    .setOutcome strategies (some ⟨number⟩)]

def history : List Game.Operation :=
  cell 1 [0, 0] 0 1 ++ cell 2 [1, 0] 1 1 ++ cell 3 [2, 0] 2 1 ++
    cell 4 [0, 1] 10 0 ++ cell 5 [1, 1] 8 0 ++ cell 6 [2, 1] 6 0

noncomputable def table (scale : ℝ) : PayoffTable ℝ :=
  { dims := [3, 2]
    cells := #[some [0, 1], some [1, 1], some [2, 1], some [10, 0], some [8, 0], some [6, 0]]
    scale }

theorem of_game_cells (game : Game) : (PayoffTable.ofGame game : PayoffTable ℝ).cells.toList =
    (game.cells.toList.map fun cell => (cell.bind fun place => game.outcomes[place]?).map Outcome.payoffs).map
      (Option.map (List.map Arithmetic.ofRat)) := by
  simp only [PayoffTable.ofGame, Array.toList_map, List.map_map]
  apply List.map_congr_left
  intro cell _
  cases cell with
  | none => rfl
  | some place =>
      cases found : game.outcomes[place]? with
      | none => simp [found]
      | some outcome => simp [found]

theorem made : ∃ game, (Game.blank [3, 2]).performAll history = .ok game ∧
    (PayoffTable.ofGame game : PayoffTable ℝ) = table game.payoffScale := by
  obtain ⟨game, made, dims, cells⟩ : ∃ game, (Game.blank [3, 2]).performAll history = .ok game ∧
      game.dimensions = [3, 2] ∧
      game.cells.toList.map (fun cell => (cell.bind fun place => game.outcomes[place]?).map Outcome.payoffs) =
        [some [0, 1], some [1, 1], some [2, 1], some [10, 0], some [8, 0], some [6, 0]] := ⟨_, rfl, rfl, rfl⟩
  refine ⟨game, made, ?_⟩
  have paid := of_game_cells game
  rw [cells] at paid
  have same : (PayoffTable.ofGame game : PayoffTable ℝ).cells = (table game.payoffScale).cells := by
    apply Array.ext'
    rw [paid]
    simp [table, Arithmetic.ofRat]
  exact PayoffTable.mk.injEq .. ▸ ⟨dims, same, rfl⟩

/-! A profile of the game, and what the strategies earn against it. -/

noncomputable def profile (scale x y z p q : ℝ) : Mixed ℝ :=
  { table := table scale, probabilities := [x, y, z, p, q] }

variable (scale x y z p q : ℝ)

theorem first_value (strategy : Nat) (left right : ℝ) (inside : strategy < 3)
    (first : (table scale).payoff strategy 0 = .ok left)
    (second : (table scale).payoff (strategy + 3) 0 = .ok right) :
    (profile scale x y z p q).strategyValue 0 strategy = .ok (p * left + q * right) := by
  have fixed : Dimensions.fix [3, 2] [(0, strategy)] = .ok [some strategy, none] := by
    simp [Dimensions.fix, Dimensions.fixOne, entry, inside]
  have vectors : (profile scale x y z p q).pureVectors [some strategy, none] =
      [[strategy, 0], [strategy, 1]] := rfl
  have firstTerm := (profile scale x y z p q).term_eq 0 [some strategy, none] [strategy, 0] [p] left rfl first
  have secondTerm := (profile scale x y z p q).term_eq 0 [some strategy, none] [strategy, 1] [q] right rfl second
  have terms : ((profile scale x y z p q).pureVectors [some strategy, none]).mapM
      ((profile scale x y z p q).term 0 [some strategy, none]) = .ok [p * left, q * right] := by
    simp [vectors, firstTerm, secondTerm]
  rw [Mixed.strategy_value_eq _ 0 strategy _ _ fixed terms]
  simp

theorem second_value (strategy : Nat) (earned : ℝ) (inside : strategy < 2)
    (paid : ∀ other < 3, (table scale).payoff (other + 3 * strategy) 1 = .ok earned) :
    (profile scale x y z p q).strategyValue 1 strategy = .ok ((x + y + z) * earned) := by
  have fixed : Dimensions.fix [3, 2] [(1, strategy)] = .ok [none, some strategy] := by
    simp [Dimensions.fix, Dimensions.fixOne, entry, inside]
  have vectors : (profile scale x y z p q).pureVectors [none, some strategy] =
      [[0, strategy], [1, strategy], [2, strategy]] := rfl
  have term (other : Nat) (below : other < 3) (share : ℝ)
      (free : (profile scale x y z p q).freeFactors 0 [none, some strategy] [other, strategy] = .ok [share]) :=
    (profile scale x y z p q).term_eq 1 [none, some strategy] [other, strategy] [share] earned free (paid other below)
  have terms : ((profile scale x y z p q).pureVectors [none, some strategy]).mapM
      ((profile scale x y z p q).term 1 [none, some strategy]) = .ok [x * earned, y * earned, z * earned] := by
    simp [vectors, term 0 (by decide) x rfl, term 1 (by decide) y rfl, term 2 (by decide) z rfl]
  rw [Mixed.strategy_value_eq _ 1 strategy _ _ fixed terms]
  simp [add_mul, add_assoc]

/-! The start of the path. -/

noncomputable def start (profile : Mixed ℝ) : Path ℝ :=
  { profile
    lambda := 1
    orientation := 1
    rankings := [⟨[[0], [1], [2]]⟩, ⟨[[0], [1]]⟩]
    pending := some .start
    merges := 0
    splits := 0 }

noncomputable def center : Mixed ℝ := profile scale (1 / 3) (1 / 3) (1 / 3) (1 / 2) (1 / 2)

theorem uniform_eq : Mixed.uniform (table scale) = center scale := by
  simp [Mixed.uniform, center, profile, table, List.replicate]

theorem first_values :
    (profile scale x y z p q).strategyValue 0 0 = .ok (q * 10) ∧
    (profile scale x y z p q).strategyValue 0 1 = .ok (p + q * 8) ∧
    (profile scale x y z p q).strategyValue 0 2 = .ok (p * 2 + q * 6) := by
  have zero := first_value scale x y z p q 0 0 10 (by decide) rfl rfl
  have one := first_value scale x y z p q 1 1 8 (by decide) rfl rfl
  have two := first_value scale x y z p q 2 2 6 (by decide) rfl rfl
  rw [mul_zero, zero_add] at zero
  rw [mul_one] at one
  exact ⟨zero, one, two⟩

theorem second_values :
    (profile scale x y z p q).strategyValue 1 0 = .ok (x + y + z) ∧
    (profile scale x y z p q).strategyValue 1 1 = .ok 0 := by
  have zero := second_value scale x y z p q 0 1 (by decide) fun other below => by
    interval_cases other <;> rfl
  have one := second_value scale x y z p q 1 0 (by decide) fun other below => by
    interval_cases other <;> rfl
  rw [mul_one] at zero
  rw [mul_zero] at one
  exact ⟨zero, one⟩

-- Values that fall are in order as they stand, and none of them tie.
theorem by_payoff_falling (values : List ℝ) (falling : values.Pairwise (· > ·)) (ranking : Ranking)
    (classes : Ranking.ofClasses (values.zipIdx.map fun value => [value.2]) = .ok ranking) :
    Ranking.byPayoff values (0 : ℝ) = .ok (.ok ranking) := by
  have pairs : values.zipIdx.Pairwise fun a b => b.1 < a.1 := by
    refine List.Pairwise.of_map (S := (· > ·)) Prod.fst (fun _ _ above => above) ?_
    rwa [List.zipIdx_map_fst]
  have sorted : Ranking.descending values = values.zipIdx := by
    apply List.mergeSort_of_pairwise
    apply pairs.imp
    intro a b above
    have order : Arithmetic.order b.1 a.1 = .lt := compare_lt_iff_lt.mpr above
    rw [Ranking.ranksBefore, order]
  have apart : Ranking.firstTie? (0 : ℝ) values.zipIdx = none := by
    clear sorted classes
    generalize values.zipIdx = entries at pairs
    induction entries with
    | nil => rfl
    | cons first rest ih =>
        obtain ⟨below, others⟩ := List.pairwise_cons.mp pairs
        cases rest with
        | nil => rfl
        | cons second rest =>
            have gap : ¬ first.1 - second.1 ≤ 0 := not_le.mpr (sub_pos.mpr (below second List.mem_cons_self))
            rw [Ranking.firstTie?, Exact.le_eq, decide_eq_false gap, if_neg Bool.false_ne_true]
            exact ih others
  rw [Ranking.byPayoff, sorted]
  simp only [apart]
  rw [classes, ok_bind]

theorem starts (config : Config ℝ) (tolerance : config.tieTolerance = 0) :
    Path.start (table scale) config = .ok (.ok (start (center scale))) := by
  have first : Path.initialRanking (center scale) 0 0 = .ok (.ok ⟨[[0], [1], [2]]⟩) := by
    obtain ⟨zero, one, two⟩ := first_values scale (1 / 3) (1 / 3) (1 / 3) (1 / 2) (1 / 2)
    have values : (List.range 3).mapM ((center scale).strategyValue 0) =
        .ok [1 / 2 * 10, 1 / 2 + 1 / 2 * 8, 1 / 2 * 2 + 1 / 2 * 6] := by
      simp only [List.range_succ, List.range_zero, List.nil_append, List.cons_append, List.mapM_cons, List.mapM_nil,
        center, zero, one, two, ok_bind]
      rfl
    have ranked := by_payoff_falling [1 / 2 * 10, 1 / 2 + 1 / 2 * 8, 1 / 2 * 2 + 1 / 2 * 6]
      (by norm_num) ⟨[[0], [1], [2]]⟩ rfl
    have count : (center scale).table.strategyCount 0 = 3 := rfl
    rw [Path.initialRanking, count, values, ok_bind, ranked]
    rfl
  have second : Path.initialRanking (center scale) 0 1 = .ok (.ok ⟨[[0], [1]]⟩) := by
    obtain ⟨zero, one⟩ := second_values scale (1 / 3) (1 / 3) (1 / 3) (1 / 2) (1 / 2)
    have values : (List.range 2).mapM ((center scale).strategyValue 1) = .ok [1 / 3 + 1 / 3 + 1 / 3, 0] := by
      simp only [List.range_succ, List.range_zero, List.nil_append, List.cons_append, List.mapM_cons, List.mapM_nil,
        center, zero, one, ok_bind]
      rfl
    have ranked := by_payoff_falling [1 / 3 + 1 / 3 + 1 / 3, 0] (by norm_num) ⟨[[0], [1]]⟩ rfl
    have count : (center scale).table.strategyCount 1 = 2 := rfl
    rw [Path.initialRanking, count, values, ok_bind, ranked]
    rfl
  have dims : (table scale).dims = [3, 2] := rfl
  have players : List.range 2 = [0, 1] := rfl
  simp [Path.start, dims, Path.emptyPlayer?, tolerance, uniform_eq, Path.initialRankings, players, first, second, start]
  rfl

/-! The first step. -/

noncomputable def rows : List (List ℝ) :=
  [[3, 0, 0, 0, 0, 1], [0, 3, 0, 0, 0, 0], [0, 0, 3, 0, 0, -1], [0, 0, 0, 2, 0, 1 / 2], [0, 0, 0, 0, 2, -(1 / 2)]]

theorem jacobian_eq : (start (profile scale x y z p q)).jacobian = .ok
    [[3, 0, 0, 0, 0, x * 3], [0, 3, 0, 0, 0, y * 3 - 1], [0, 0, 3, 0, 0, z * 3 - 2], [0, 0, 0, 2, 0, p],
      [0, 0, 0, 0, 2, q - 1]] := by
  have dims : (profile scale x y z p q).table.dims = [3, 2] := rfl
  have firstCount : (profile scale x y z p q).table.strategyCount 0 = 3 := rfl
  have secondCount : (profile scale x y z p q).table.strategyCount 1 = 2 := rfl
  have probabilities : (profile scale x y z p q).probabilities = [x, y, z, p, q] := rfl
  have total : Dimensions.total [3, 2] = 5 := rfl
  have firstOffset : Dimensions.offset [3, 2] 0 = 0 := rfl
  have secondOffset : Dimensions.offset [3, 2] 1 = 3 := rfl
  have three : Path.rankWeights (1 : ℝ) 3 = 3 := by
    simp [Path.rankWeights, List.range_succ]
    norm_num
  have two : Path.rankWeights (1 : ℝ) 2 = 2 := by
    simp [Path.rankWeights, List.range_succ]
    norm_num
  simp [Path.jacobian, Path.playerRows, Path.classRows, Path.massRow, start, Path.table, entry,
    Ranking.strategyCount, Ranking.size, Ranking.members, Ranking.rankOffset, Ranking.representative, dims,
    firstCount, secondCount, Mixed.offset, Mixed.players, firstOffset, secondOffset, total, Mixed.probability,
    probabilities, three, two, Path.setEntry, List.range_succ, Path.rankDerivative, List.replicate]
  norm_num

theorem rows_eq : (start (center scale)).jacobian = .ok rows := by
  rw [center, jacobian_eq, rows]
  norm_num

theorem square_eq : Scalar.det (rows.map fun row => row.eraseIdx 5) = (108 : ℝ) := by
  have diagonal : matrixOf (rows.map fun row => row.eraseIdx 5) 5 5 = Matrix.diagonal ![3, 3, 3, 2, 2] := by
    ext row column
    fin_cases row <;> fin_cases column <;> simp [matrixOf, rows, Matrix.diagonal]
  have size : (rows.map fun row => row.eraseIdx 5).length = 5 := rfl
  rw [Exact.det_eq, size, diagonal, Matrix.det_diagonal]
  simp [Fin.prod_univ_succ]
  norm_num

-- The rows determine the direction up to its last entry, which is a determinant.
theorem tangent_eq : Path.tangent 1 rows = [36, 0, -36, 27, -27, -108] := by
  have last : (Path.tangent 1 rows).getD 5 0 = -108 := by
    rw [Exact.tangent_entry 1 rows 5 (by decide), square_eq]
    norm_num
  have solved := Exact.tangent_orthogonal 1 rows
  obtain ⟨a, b, c, d, e, f, same⟩ : ∃ a b c d e f : ℝ, Path.tangent 1 rows = [a, b, c, d, e, f] :=
    ⟨_, _, _, _, _, _, rfl⟩
  rw [same] at last solved ⊢
  have size : rows.length + 1 = 6 := rfl
  simp only [size, Finset.sum_range_succ, Finset.sum_range_zero] at solved
  simp [rows] at solved last
  obtain ⟨first, second, third, fourth, fifth⟩ := solved
  subst last
  have left : a = 36 := by linarith
  have right : c = -36 := by linarith
  have up : d = 27 := by linarith
  have down : e = -27 := by linarith
  rw [left, second, right, up, down]

-- What the unit step in this direction is multiplied with.
noncomputable def share : ℝ := 1 / Path.length [36, 0, -36, 27, -27, -108]

theorem length_eq : Path.length [36, 0, -36, 27, -27, -108] = Real.sqrt 15714 := by
  rw [Path.length]
  simp [Arithmetic.sqrt]
  norm_num

theorem share_bounds : 0 < share ∧ 1 / 162 ≤ share ∧ share ≤ 1 / 108 := by
  have positive : 0 < Real.sqrt 15714 := Real.sqrt_pos.mpr (by norm_num)
  have short : Real.sqrt 15714 ≤ 162 := Real.sqrt_le_iff.mpr ⟨by norm_num, by norm_num⟩
  have long : 108 ≤ Real.sqrt 15714 := Real.le_sqrt_of_sq_le (by norm_num)
  rw [share, length_eq]
  exact ⟨one_div_pos.mpr positive, one_div_le_one_div_of_le positive short,
    one_div_le_one_div_of_le (by norm_num) long⟩

noncomputable def shifted : Mixed ℝ :=
  profile scale (1 / 3 + 36 * share) (1 / 3) (1 / 3 - 36 * share) (1 / 2 + 27 * share) (1 / 2 - 27 * share)

-- The configuration of one long step.
noncomputable def stride : Config ℝ :=
  { maxSteps := 1, lambdaFloor := 0, stepSize := 1, reportInterval := 0, tieTolerance := 0, feasibilityTolerance := 0 }

theorem orient_eq (path : Path ℝ) (direction : List ℝ) (pending : path.pending = some .start)
    (falls : 0 ≤ Path.fallOfLambda direction) :
    path.orient direction = .ok ⟨{ path with pending := none }, direction, none⟩ := by
  have forward : Arithmetic.lt (Path.fallOfLambda direction) Arithmetic.zero = false := by
    simpa using falls
  rw [Path.orient, pending]
  simp only [Path.heading, ok_bind, ite_self, forward]
  rfl

-- Where the first step leads before the rankings are repaired.
noncomputable def moved : Path ℝ :=
  { start (center scale) with
    profile := shifted scale
    lambda := 1 - 108 * share
    pending := none }

theorem move_eq : ({ start (center scale) with pending := none } : Path ℝ).move [36, 0, -36, 27, -27, -108]
    1 (Path.length [36, 0, -36, 27, -27, -108]) = .ok (moved scale) := by
  have columns : ([36, 0, -36, 27, -27, -108] : List ℝ).length - 1 = 5 := rfl
  have last : entry ([36, 0, -36, 27, -27, -108] : List ℝ) 5 = .ok (-108) := rfl
  have added : (center scale).add (([36, 0, -36, 27, -27, -108].take 5).map fun t => t * share) =
      .ok (shifted scale) := by
    rw [Mixed.add]
    simp [center, shifted, profile, sub_eq_add_neg]
  have unit : 1 / Path.length [36, 0, -36, 27, -27, -108] = share := rfl
  have fallen : (start (center scale)).lambda + -108 * share = 1 - 108 * share := by
    rw [neg_mul, ← sub_eq_add_neg]
    rfl
  have whole : (start (center scale)).profile = center scale := rfl
  simp only [Path.move, columns, last, whole, unit, added, fallen, ok_bind]
  rfl

theorem feasible : (moved scale).infeasible? 1 0 = none := by
  obtain ⟨positive, -, small⟩ := share_bounds
  have lambda : (moved scale).lambda = 1 - 108 * share := rfl
  have lowest : 0 ≤ Arithmetic.smallest (moved scale).profile.probabilities := by
    apply Exact.smallest_ge
    · linarith
    · simp only [List.forall_mem_cons]
      refine ⟨?_, ?_, ?_, ?_, List.forall_mem_nil _⟩ <;> linarith
  rw [Path.infeasible?, lambda]
  simp [lowest, positive.le]

-- All three values have changed their order: the second exceeds the first, and the third the second.
theorem values_cross :
    ∃ zero one two, (shifted scale).strategyValue 0 0 = .ok zero ∧ (shifted scale).strategyValue 0 1 = .ok one ∧
      (shifted scale).strategyValue 0 2 = .ok two ∧ zero ≤ one ∧ zero ≤ two := by
  obtain ⟨zero, one, two⟩ := first_values scale (1 / 3 + 36 * share) (1 / 3) (1 / 3 - 36 * share)
    (1 / 2 + 27 * share) (1 / 2 - 27 * share)
  obtain ⟨-, passed, -⟩ := share_bounds
  refine ⟨_, _, _, zero, one, two, ?_, ?_⟩ <;> linarith

-- The first two classes are merged, and the visit goes on below them.
theorem first_repaired (step : Nat) :
    ∃ result, (moved scale).repair 0 step = .ok result ∧ result.1.profile = shifted scale ∧
      result.1.lambda = 1 - 108 * share ∧ result.1.rankings = [⟨[[0, 1], [2]]⟩, ⟨[[0], [1]]⟩] := by
  obtain ⟨zero, one, two, first, second, -, crossed, -⟩ := values_cross scale
  let visit : Path.Visit ℝ := { path := moved scale, ranking := ⟨[[0], [1], [2]]⟩, events := [] }
  have flips : (moved scale).flipped 0 visit.ranking 0 = .ok true := by
    rw [Path.flipped_eq _ 0 0 0 1 _ [] [] zero one rfl rfl first second, Exact.le_eq, decide_eq_true crossed]
  have merges : visit.ranking.merge 0 = .ok ⟨[[0, 1], [2]]⟩ := rfl
  obtain ⟨after, merged, same, ranking⟩ : ∃ after, Path.visitClass 0 step 0 visit = .ok after ∧
      Path.SamePlace (moved scale) after.path ∧ after.ranking = ⟨[[0, 1], [2]]⟩ := by
    rw [Path.visitClass, flips, ok_bind, if_pos rfl, Path.mergeClass, merges]
    exact ⟨_, rfl, ⟨rfl, rfl, rfl⟩, rfl⟩
  have size : after.ranking.size = 2 := by
    rw [ranking]
    rfl
  have last : Path.visitClass 0 step 1 after = .ok after := by
    rw [Path.visitClass, ranking]
    rfl
  have visited : Path.visitFrom 0 step 0 visit = .ok after := by
    rw [Path.visit_from_next 0 step 0 visit after (Nat.zero_lt_succ 2) merged,
      Path.visit_from_next 0 step 1 after after (by omega) last, Path.visitFrom, dif_neg (by omega)]
  have read : entry (moved scale).rankings 0 = .ok visit.ranking := rfl
  rw [Path.repair, read, ok_bind, visited, ok_bind]
  refine ⟨_, rfl, same.profile, same.lambda, ?_⟩
  rw [same.rankings, ranking]
  rfl

-- The ranking of the other player stays in order.
theorem second_kept (path : Path ℝ) (profile : path.profile = shifted scale)
    (ranked : path.rankings[1]? = some ⟨[[0], [1]]⟩) (step : Nat) :
    ∃ result, path.repair 1 step = .ok result ∧ result.1.profile = path.profile ∧
      result.1.lambda = path.lambda ∧ result.1.rankings = path.rankings := by
  obtain ⟨first, second⟩ := second_values scale (1 / 3 + 36 * share) (1 / 3) (1 / 3 - 36 * share)
    (1 / 2 + 27 * share) (1 / 2 - 27 * share)
  have total : 1 / 3 + 36 * share + 1 / 3 + (1 / 3 - 36 * share) = 1 := by ring
  rw [total, ← shifted, ← profile] at first
  rw [← shifted, ← profile] at second
  let visit : Path.Visit ℝ := { path, ranking := ⟨[[0], [1]]⟩, events := [] }
  have ordered : path.flipped 1 visit.ranking 0 = .ok false := by
    rw [Path.flipped_eq path 1 0 0 1 _ [] [] 1 0 rfl rfl first second, Exact.le_eq,
      decide_eq_false (not_le.mpr one_pos)]
  have kept : Path.visitClass 1 step 0 visit = .ok visit := by
    rw [Path.visitClass, ordered]
    rfl
  have last : Path.visitClass 1 step 1 visit = .ok visit := rfl
  have outside : ¬ 2 < visit.ranking.size := Nat.lt_irrefl 2
  have visited : Path.visitFrom 1 step 0 visit = .ok visit := by
    rw [Path.visit_from_next 1 step 0 visit visit (Nat.zero_lt_succ 1) kept,
      Path.visit_from_next 1 step 1 visit visit (Nat.lt_succ_self 1) last, Path.visitFrom, dif_neg outside]
  obtain ⟨inside, same⟩ := List.getElem?_eq_some_iff.mp ranked
  rw [Path.repair, (entry_eq_ok _ _ _).mpr ranked, ok_bind, visited, ok_bind]
  refine ⟨_, rfl, rfl, rfl, ?_⟩
  have unchanged := List.set_getElem_self inside
  rwa [same] at unchanged

theorem first_attempt : ∃ attempt, (start (center scale)).advance 1 stride = .ok attempt ∧ attempt.failure = none ∧
    attempt.path.profile = shifted scale ∧ attempt.path.lambda = 1 - 108 * share ∧
    attempt.path.rankings = [⟨[[0, 1], [2]]⟩, ⟨[[0], [1]]⟩] := by
  obtain ⟨first, firstRun, firstProfile, firstLambda, firstRankings⟩ := first_repaired scale 1
  obtain ⟨second, secondRun, secondProfile, secondLambda, secondRankings⟩ := second_kept scale first.1 firstProfile
    (by rw [firstRankings]; rfl) 1
  have repaired : (moved scale).repairAll 1 (List.range (moved scale).rankings.length) =
      .ok (second.1, first.2 ++ (second.2 ++ [])) := by
    have players : List.range (moved scale).rankings.length = [0, 1] := rfl
    rw [players]
    simp only [Path.repairAll, firstRun, secondRun, ok_bind]
  have turned := orient_eq (start (center scale)) [36, 0, -36, 27, -27, -108] rfl (by norm_num [Path.fallOfLambda])
  have size : Path.hasLength (Path.length [36, 0, -36, 27, -27, -108] : ℝ) = true := by
    rw [Path.hasLength, length_eq]
    simp [Arithmetic.isFinite]
  have direction : Path.tangent (start (center scale)).orientation rows = [36, 0, -36, 27, -27, -108] := tangent_eq
  have pace : stride.stepSize = 1 := rfl
  have tolerance : stride.feasibilityTolerance = 0 := rfl
  have advanced : (start (center scale)).advance 1 stride =
      .ok ⟨second.1, first.2 ++ (second.2 ++ []), none⟩ := by
    simp only [Path.advance, rows_eq, ok_bind, direction, turned, size, if_true, pace, move_eq, tolerance,
      feasible, repaired]
    rfl
  exact ⟨_, advanced, rfl, secondProfile.trans firstProfile, secondLambda.trans firstLambda,
    secondRankings.trans firstRankings⟩

theorem first_step : ∃ next, (Run.ofPath (start (center scale))).step stride = .ok (.ok next) ∧
    next.steps = 1 ∧ next.path.profile = shifted scale ∧ next.path.rankings = [⟨[[0, 1], [2]]⟩, ⟨[[0], [1]]⟩] := by
  obtain ⟨attempt, advanced, whole, profile, -, rankings⟩ := first_attempt scale
  have path : (Run.ofPath (start (center scale))).path = start (center scale) := rfl
  have number : (Run.ofPath (start (center scale))).steps + 1 = 1 := rfl
  rw [Run.step, path, number, advanced, ok_bind, whole]
  exact ⟨_, rfl, rfl, profile, rankings⟩

end Crossing

end NormalForm
