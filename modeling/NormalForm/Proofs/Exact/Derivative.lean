import Mathlib.Algebra.Polynomial.Derivative
import NormalForm.Proofs.Exact.Crossing

/-!
The matrix of a path is the derivative of its equations, in exact arithmetic. Residuals are affine in every
probability, so that a row states the whole change of a residual, and polynomials in lambda.
-/

set_option autoImplicit false

namespace NormalForm

namespace Path

/-! The equations. -/

inductive Equation where
  -- The members of a class hold together what the ranks from `ranked` on weigh.
  | mass (player : Nat) (members : List Nat) (ranked : Nat)
  -- A strategy earns what the first member of its class earns.
  | gap (player first strategy : Nat)
deriving DecidableEq, Repr

-- How far a profile is from solving the equation. The mass counts times the sum of all weights, which are not
-- normalized.
noncomputable def Equation.residual (profile : Mixed ℝ) (lambda : ℝ) : Equation → Except Fault ℝ
  | .mass player members ranked => do
      let shares ← members.mapM (profile.probability player)
      .ok ((∑ r ∈ Finset.range (profile.table.strategyCount player), lambda ^ r) * shares.sum -
        ∑ r ∈ Finset.Ico ranked (ranked + members.length), lambda ^ r)
  | .gap player first strategy => do
      let upper ← profile.strategyValue player first
      let lower ← profile.strategyValue player strategy
      .ok (upper - lower)

def classEquations (player ranked : Nat) (members : List Nat) : List Equation :=
  .mass player members ranked :: match members with
    | [] => []
    | first :: others => others.map (.gap player first)

-- The equations of classes that take the ranks from `ranked` on.
def rankedEquations (player ranked : Nat) : List (List Nat) → List Equation
  | [] => []
  | members :: worse =>
      classEquations player ranked members ++ rankedEquations player (ranked + members.length) worse

def equations (path : Path ℝ) : List Equation :=
  path.rankings.zipIdx.flatMap fun (ranking, player) => rankedEquations player 0 ranking.classes

-- The row holds the slopes of the residual, which is affine in every probability, and then its derivative by lambda.
structure Differentiates (path : Path ℝ) (equation : Equation) (row : List ℝ) : Prop where
  length : row.length = path.table.dims.total + 1
  profile : ∀ column < path.table.dims.total, ∀ h : ℝ, ∃ before after,
    equation.residual path.profile path.lambda = .ok before ∧
    equation.residual (path.profile.nudged column h) path.lambda = .ok after ∧
    after - before = h * row.getD column 0
  lambda : ∃ polynomial : Polynomial ℝ,
    (∀ t, equation.residual path.profile t = .ok (polynomial.eval t)) ∧
    row.getD path.table.dims.total 0 = polynomial.derivative.eval path.lambda

/-! The mass of a class. -/

theorem sum_at_place (places : List Nat) (nodup : places.Nodup) (column : Nat) (h : ℝ) :
    (places.map fun place => if place = column then h else 0).sum = if column ∈ places then h else 0 := by
  rw [← List.sum_toFinset _ nodup, Finset.sum_ite_eq']
  simp only [List.mem_toFinset]

theorem rank_weights_eq (lambda : ℝ) (n : Nat) : rankWeights lambda n = ∑ r ∈ Finset.range n, lambda ^ r := by
  simp only [rankWeights, Exact.sum_eq, Exact.power_eq, Exact.sum_of_range]

theorem weights_eval (ranks : Finset Nat) (t : ℝ) :
    (∑ r ∈ ranks, Polynomial.X ^ r : Polynomial ℝ).eval t = ∑ r ∈ ranks, t ^ r := by
  simp only [Polynomial.eval_finsetSum, Polynomial.eval_pow, Polynomial.eval_X]

theorem weights_rate (ranks : Finset Nat) (t : ℝ) :
    (∑ r ∈ ranks, Polynomial.X ^ r : Polynomial ℝ).derivative.eval t = ∑ r ∈ ranks, rankDerivative t r := by
  rw [Polynomial.derivative_sum, Polynomial.eval_finsetSum]
  refine Finset.sum_congr rfl fun r _ => ?_
  rw [Polynomial.derivative_X_pow, rankDerivative]
  by_cases first : r = 0
  · simp [first]
  · simp [first]

theorem mass_residual (profile : Mixed ℝ) (complete : profile.Complete) (player ranked : Nat) (members : List Nat)
    (below : ∀ strategy ∈ members, strategy < profile.table.strategyCount player) (lambda : ℝ) :
    (Equation.mass player members ranked).residual profile lambda = .ok
      ((∑ r ∈ Finset.range (profile.table.strategyCount player), lambda ^ r) *
          (members.map (profile.share player)).sum -
        ∑ r ∈ Finset.Ico ranked (ranked + members.length), lambda ^ r) := by
  rw [Equation.residual, profile.probabilities_eq_shares complete player members below, ok_bind]

theorem nudged_mass (profile : Mixed ℝ) (player column : Nat) (h : ℝ) (members : List Nat)
    (inside : column < profile.probabilities.length) (nodup : members.Nodup) :
    (members.map ((profile.nudged column h).share player)).sum = (members.map (profile.share player)).sum +
      if column ∈ members.map (profile.table.dims.offset player + ·) then h else 0 := by
  have places : (members.map (profile.table.dims.offset player + ·)).Nodup :=
    nodup.map fun a b same => Nat.add_left_cancel same
  rw [← sum_at_place _ places, List.map_map, ← List.sum_map_add]
  exact congrArg List.sum (List.map_congr_left fun strategy _ => profile.nudged_share column h inside player strategy)

theorem mass_row_differentiates (path : Path ℝ) (valid : path.Valid) (player ranked : Nat) (members : List Nat)
    (row : List ℝ) (isMass : MassRow path player members ranked row) (nodup : members.Nodup)
    (below : ∀ strategy ∈ members, strategy < path.table.strategyCount player) :
    path.Differentiates (.mass player members ranked) row := by
  refine ⟨isMass.length, fun column inside h => ?_, ?_⟩
  · have complete := path.profile.nudged_complete valid.profile column h
    refine ⟨_, _, mass_residual path.profile valid.profile player ranked members below path.lambda,
      mass_residual _ complete player ranked members below path.lambda, ?_⟩
    have entry : row.getD column 0 =
        if column ∈ members.map (path.table.dims.offset player + ·) then
          ∑ r ∈ Finset.range (path.table.strategyCount player), path.lambda ^ r
        else 0 := by
      rw [List.getD_eq_getElem?_getD, isMass.strategies column inside, Option.getD_some, rank_weights_eq, Exact.zero_eq]
    have table : (path.profile.nudged column h).table = path.table := rfl
    have own : path.profile.table = path.table := rfl
    rw [nudged_mass path.profile player column h members (valid.profile.length.symm ▸ inside) nodup, entry, table, own]
    split_ifs
    · ring
    · ring
  · obtain ⟨shares, read, last⟩ := isMass.lambda
    let weights : Polynomial ℝ := ∑ r ∈ Finset.range (path.table.strategyCount player), Polynomial.X ^ r
    let due : Polynomial ℝ := ∑ r ∈ Finset.Ico ranked (ranked + members.length), Polynomial.X ^ r
    refine ⟨weights * Polynomial.C shares.sum - due, fun t => ?_, ?_⟩
    · rw [Equation.residual, read, ok_bind, Polynomial.eval_sub, Polynomial.eval_mul, Polynomial.eval_C, weights_eval,
        weights_eval]
      rfl
    · rw [List.getD_eq_getElem?_getD, last, Option.getD_some, massRate, Polynomial.derivative_sub,
        Polynomial.derivative_mul, Polynomial.derivative_C, mul_zero, add_zero, Polynomial.eval_sub,
        Polynomial.eval_mul, Polynomial.eval_C, weights_rate, weights_rate, mul_comm]
      simp only [Exact.sum_eq, Exact.sum_of_range, Exact.sum_of_interval]

/-! The payoff of a further member. -/

theorem gap_entry (path : Path ℝ) (player first strategy other otherStrategy : Nat) (rates : List ℝ) (upper lower : ℝ)
    (run : path.gapEntries player first strategy other = .ok rates)
    (below : otherStrategy < path.table.strategyCount other)
    (upperRun : path.profile.derivative player first other otherStrategy = .ok upper)
    (lowerRun : path.profile.derivative player strategy other otherStrategy = .ok lower) :
    rates[otherStrategy]? = some (upper - lower) := by
  obtain ⟨rate, found, here⟩ := forall₂_range _ rates (map_m_each _ _ rates run) otherStrategy below
  rw [found]
  by_cases own : other = player
  · rw [Mixed.derivative, if_pos own] at upperRun lowerRun
    cases upperRun
    cases lowerRun
    rw [if_pos own] at here
    cases here
    rw [sub_self, Exact.zero_eq]
  · rw [if_neg own, upperRun, ok_bind, lowerRun, ok_bind] at here
    cases here
    rfl

theorem gap_row_entry (path : Path ℝ) (player first strategy other otherStrategy : Nat) (row : List ℝ) (upper lower : ℝ)
    (run : path.gapRow player first strategy = .ok row) (below : otherStrategy < path.table.strategyCount other)
    (upperRun : path.profile.derivative player first other otherStrategy = .ok upper)
    (lowerRun : path.profile.derivative player strategy other otherStrategy = .ok lower) :
    row[path.table.dims.offset other + otherStrategy]? = some (upper - lower) := by
  obtain ⟨parts, partsRun, same⟩ := bind_eq_ok.mp run
  cases same
  have known := path.table.strategy_known other otherStrategy below
  have each := map_m_each _ _ parts partsRun
  have sizes : List.Forall₂ (fun d part => part.length = d) path.table.dims parts := by
    rw [← path.table.strategy_counts, List.forall₂_map_left_iff]
    refine each.imp fun other part here => ?_
    rw [← (map_m_each _ _ part here).length_eq, List.length_range]
  obtain ⟨part, found, here⟩ := forall₂_range _ parts each other (List.getElem?_eq_some_iff.mp known).1
  have entry := gap_entry path player first strategy other otherStrategy part upper lower here below upperRun lowerRun
  have inside := (List.getElem?_eq_some_iff.mp entry).1
  have flat := (Dimensions.flatten_at _ parts other otherStrategy part sizes found inside).trans entry
  rw [List.getElem?_append_left (List.getElem?_eq_some_iff.mp flat).1, flat]

theorem gap_row_differentiates (path : Path ℝ) (valid : path.Valid) (player first strategy : Nat) (row : List ℝ)
    (run : path.gapRow player first strategy = .ok row) (firstBelow : first < path.table.strategyCount player)
    (below : strategy < path.table.strategyCount player) : path.Differentiates (.gap player first strategy) row := by
  obtain ⟨sameRow, sameRun, length⟩ := gap_row_succeeds path valid player first strategy firstBelow below
  cases run.symm.trans sameRun
  refine ⟨length, fun column inside h => ?_, ?_⟩
  · obtain ⟨other, otherStrategy, d, known, otherInside, rfl⟩ := Dimensions.place_exists path.table.dims column inside
    have otherBelow : otherStrategy < path.table.strategyCount other :=
      path.table.strategy_count_known other d known ▸ otherInside
    obtain ⟨upper, upperRate, upperRun, upperSlope, upperMoved⟩ :=
      path.profile.strategy_value_nudged valid.profile player first other otherStrategy h firstBelow otherBelow
    obtain ⟨lower, lowerRate, lowerRun, lowerSlope, lowerMoved⟩ :=
      path.profile.strategy_value_nudged valid.profile player strategy other otherStrategy h below otherBelow
    have entry := gap_row_entry path player first strategy other otherStrategy row upperRate lowerRate run otherBelow
      upperSlope lowerSlope
    have dims : path.table.dims = path.profile.table.dims := rfl
    refine ⟨upper - lower, upper + h * upperRate - (lower + h * lowerRate), ?_, ?_, ?_⟩
    · rw [Equation.residual, upperRun, ok_bind, lowerRun, ok_bind]
    · rw [Equation.residual, dims, upperMoved, ok_bind, lowerMoved, ok_bind]
    · rw [List.getD_eq_getElem?_getD, entry, Option.getD_some]
      ring
  · obtain ⟨upper, upperRun⟩ := path.profile.strategy_value_succeeds valid.profile player first firstBelow
    obtain ⟨lower, lowerRun⟩ := path.profile.strategy_value_succeeds valid.profile player strategy below
    refine ⟨Polynomial.C (upper - lower), fun t => ?_, ?_⟩
    · rw [Equation.residual, upperRun, ok_bind, lowerRun, ok_bind, Polynomial.eval_C]
    · obtain ⟨parts, -, same⟩ := bind_eq_ok.mp run
      cases same
      have last : parts.flatten.length = path.table.dims.total := by
        rw [List.length_append] at length
        exact Nat.succ.inj length
      rw [← last, List.getD_append_right _ _ _ _ (le_refl _), Nat.sub_self, List.getD_cons_zero,
        Polynomial.derivative_C, Polynomial.eval_zero, Exact.zero_eq]

/-! The rows of the matrix, in their order. -/

theorem class_rows_differentiate (path : Path ℝ) (valid : path.Valid) (player rank : Nat) (ranking : Ranking)
    (rows : List (List ℝ)) (inside : player < path.table.dims.length)
    (ranked : ranking.Valid (path.table.strategyCount player)) (run : path.classRows player ranking rank = .ok rows) :
    List.Forall₂ path.Differentiates
      (classEquations player (ranking.classes.take rank).flatten.length (ranking.classes.getD rank [])) rows := by
  obtain ⟨members, read, run⟩ := bind_eq_ok.mp run
  obtain ⟨offset, start, run⟩ := bind_eq_ok.mp run
  obtain ⟨mass, massRun, run⟩ := bind_eq_ok.mp run
  obtain ⟨first, chosen, run⟩ := bind_eq_ok.mp run
  obtain ⟨gaps, gapsRun, run⟩ := bind_eq_ok.mp run
  cases run
  have found : ranking.classes[rank]? = some members := (entry_eq_ok _ _ _).mp read
  have listed : members ∈ ranking.classes := List.mem_of_getElem? found
  have below := Ranking.valid_member_lt ranking _ ranked members listed
  have nodup := Ranking.ascending_nodup members (ranked.ascending members listed)
  have rankInside : rank ≤ ranking.size := Nat.le_of_lt (List.getElem?_eq_some_iff.mp found).1
  cases start.symm.trans (Ranking.rank_offset_inside ranking rank rankInside)
  obtain ⟨sameMass, sameRun, isMass⟩ := mass_row_succeeds path valid player members _ inside below
  cases massRun.symm.trans sameRun
  rw [List.getD_eq_getElem?_getD, found, Option.getD_some]
  cases members with
  | nil => cases chosen
  | cons best others =>
      cases chosen
      refine .cons (mass_row_differentiates path valid player _ _ mass isMass nodup below) ?_
      rw [List.forall₂_map_left_iff]
      have firstBelow := below first List.mem_cons_self
      obtain ⟨sameGaps, sameRun, each⟩ := map_m_succeeds others (path.gapRow player first)
        (fun strategy row => path.Differentiates (.gap player first strategy) row) fun strategy member => by
          have strategyBelow := below strategy (List.mem_cons_of_mem first member)
          obtain ⟨row, here, -⟩ := gap_row_succeeds path valid player first strategy firstBelow strategyBelow
          exact ⟨row, here, gap_row_differentiates path valid player first strategy row here firstBelow strategyBelow⟩
      cases gapsRun.symm.trans sameRun
      exact each

theorem ranked_equations_eq (player start : Nat) (classes : List (List Nat)) :
    rankedEquations player start classes = ((List.range classes.length).map fun rank =>
      classEquations player (start + (classes.take rank).flatten.length) (classes.getD rank [])).flatten := by
  induction classes generalizing start with
  | nil => rfl
  | cons members worse ih =>
      rw [rankedEquations, ih, List.length_cons, List.range_succ_eq_map, List.map_cons, List.flatten_cons, List.map_map]
      refine congrArg (classEquations player start members ++ List.flatten ·) (List.map_congr_left fun rank _ => ?_)
      rw [Function.comp_apply, List.take_succ_cons, List.flatten_cons, List.length_append, List.getD_cons_succ,
        Nat.add_assoc]

theorem player_rows_differentiate (path : Path ℝ) (valid : path.Valid) (player : Nat) (rows : List (List ℝ))
    (run : path.playerRows player = .ok rows) :
    List.Forall₂ path.Differentiates (rankedEquations player 0 (path.rankings.getD player ⟨[]⟩).classes) rows := by
  obtain ⟨ranking, read, run⟩ := bind_eq_ok.mp run
  have found : path.rankings[player]? = some ranking := (entry_eq_ok _ _ _).mp read
  obtain ⟨inside, ranked⟩ := valid_ranking path valid player ranking found
  split at run
  · cases run
  · obtain ⟨parts, each, run⟩ := bind_eq_ok.mp run
    cases run
    rw [List.getD_eq_getElem?_getD, found, Option.getD_some, ranked_equations_eq]
    refine List.rel_flatten (List.forall₂_map_left_iff.mpr ((map_m_each _ _ parts each).imp fun rank part here => ?_))
    rw [Nat.zero_add]
    exact class_rows_differentiate path valid player rank ranking part inside ranked here

theorem equations_eq (path : Path ℝ) : path.equations = ((List.range path.rankings.length).map fun player =>
    rankedEquations player 0 (path.rankings.getD player ⟨[]⟩).classes).flatten := by
  rw [equations, List.flatMap_def]
  refine congrArg List.flatten (List.ext_getElem (by simp) fun player _ inside => ?_)
  rw [List.length_map, List.length_range] at inside
  simp [inside]

theorem jacobian_differentiates (path : Path ℝ) (valid : path.Valid) (rows : List (List ℝ))
    (run : path.jacobian = .ok rows) : List.Forall₂ path.Differentiates path.equations rows := by
  obtain ⟨parts, each, run⟩ := bind_eq_ok.mp run
  split at run
  · cases run
    rw [equations_eq]
    exact List.rel_flatten (List.forall₂_map_left_iff.mpr ((map_m_each _ _ parts each).imp fun player part here =>
      player_rows_differentiate path valid player part here))
  · cases run

end Path

-- Every profile counts, also one of numbers that are no probabilities, and every lambda.
theorem Game.jacobian_is_the_derivative (game : Game) (reachable : game.Reachable) (path : Path ℝ)
    (table : path.table = .ofGame game) (entries : path.profile.probabilities.length = game.profileLength)
    (rankings : List.Forall₂ Ranking.Valid path.rankings game.dimensions) :
    ∃ rows, path.jacobian = .ok rows ∧ rows.length = game.profileLength ∧
      List.Forall₂ path.Differentiates path.equations rows := by
  have gameValid := reachable_well_formed game reachable
  have dims : path.table.dims = game.dimensions := congrArg PayoffTable.dims table
  have complete : path.table.Complete := table ▸ PayoffTable.of_game_complete game gameValid
  -- The matrix does not read the pending change, which may name anything.
  let settled : Path ℝ := { path with pending := none }
  have valid : settled.Valid :=
    { profile := ⟨complete, entries.trans (congrArg Dimensions.total dims.symm)⟩
      words := dims ▸ Dimensions.words_of_count game.dimensions gameValid.addressable
      rankings := dims ▸ rankings
      pending := fun change waiting => absurd waiting (Option.not_mem_none change) }
  obtain ⟨rows, built, height, -⟩ := Path.jacobian_succeeds settled valid
  have each := Path.jacobian_differentiates settled valid rows built
  refine ⟨rows, built, height.trans (congrArg Dimensions.total dims), each.imp fun equation row derivative => ?_⟩
  exact ⟨derivative.length, derivative.profile, derivative.lambda⟩

-- The first two strategies of player 0 in one class. Where player 1 plays the first strategy, they earn 0 and 1.
theorem Game.jacobian_is_the_derivative_choice :
    ∃ game, (blank [3, 2]).performAll Crossing.history = .ok game ∧
      ∃ (path : Path ℝ) (rows : List (List ℝ)), path.rankings = [⟨[[0, 1], [2]]⟩, ⟨[[0], [1]]⟩] ∧
        path.jacobian = .ok rows ∧ rows.length = 5 ∧
        List.Forall₂ path.Differentiates
          [.mass 0 [0, 1] 0, .gap 0 0 1, .mass 0 [2] 2, .mass 1 [0] 0, .mass 1 [1] 1] rows ∧
        (rows.getD 1 []).getD 3 0 = -1 := by
  obtain ⟨game, made, table⟩ := Crossing.made
  let path : Path ℝ :=
    { Crossing.start (Crossing.center game.payoffScale) with rankings := [⟨[[0, 1], [2]]⟩, ⟨[[0], [1]]⟩] }
  have dims : game.dimensions = [3, 2] := congrArg PayoffTable.dims table
  have total : game.profileLength = 5 := congrArg Dimensions.total dims
  have rankings : List.Forall₂ Ranking.Valid path.rankings game.dimensions := by
    obtain ⟨tied, run, tiedValid⟩ := Ranking.merge_valid ⟨[[0], [1], [2]]⟩ 3 0
      (Ranking.singletons_valid [0, 1, 2] 3 (by decide)) (by decide) (by decide)
    cases run
    rw [dims]
    exact .cons tiedValid (.cons (Ranking.singletons_valid [0, 1] 2 (by decide)) .nil)
  obtain ⟨rows, built, height, each⟩ :=
    jacobian_is_the_derivative game ⟨[3, 2], _, _, rfl, made⟩ path table.symm total.symm rankings
  refine ⟨game, made, path, rows, rfl, built, height.trans total, each, ?_⟩
  obtain ⟨mass, later, -, gaps, rfl⟩ := List.forall₂_cons_left_iff.mp each
  obtain ⟨gap, others, slopes, -, rfl⟩ := List.forall₂_cons_left_iff.mp gaps
  have inside : 3 < Dimensions.total [3, 2] := by decide
  obtain ⟨before, after, read, moved, change⟩ := slopes.profile 3 inside 1
  obtain ⟨first, second, -⟩ := Crossing.first_values game.payoffScale (1 / 3) (1 / 3) (1 / 3) (1 / 2) (1 / 2)
  obtain ⟨firstMoved, secondMoved, -⟩ :=
    Crossing.first_values game.payoffScale (1 / 3) (1 / 3) (1 / 3) (1 / 2 + 1) (1 / 2)
  have profile : path.profile = Crossing.profile game.payoffScale (1 / 3) (1 / 3) (1 / 3) (1 / 2) (1 / 2) := rfl
  have nudged : path.profile.nudged 3 1 =
      Crossing.profile game.payoffScale (1 / 3) (1 / 3) (1 / 3) (1 / 2 + 1) (1 / 2) := rfl
  rw [profile, Path.Equation.residual, first, ok_bind, second, ok_bind] at read
  rw [nudged, Path.Equation.residual, firstMoved, ok_bind, secondMoved, ok_bind] at moved
  rw [← Except.ok.inj read, ← Except.ok.inj moved] at change
  rw [List.getD_cons_succ, List.getD_cons_zero]
  linarith

end NormalForm
