import Mathlib.Algebra.BigOperators.Group.Finset.Piecewise
import Mathlib.Algebra.BigOperators.Ring.List
import Mathlib.Tactic.LinearCombination
import NormalForm.Proofs.Exact.Cofactor
import NormalForm.Proofs.Solver.Safety

/-!
In exact arithmetic every player's probabilities sum to one along the path. The mass equations of a
player's classes add up to one equation, since the ranks of the classes tile the ranks of the player;
the tangent solves it, and the sum of the rank weights is not zero above the floor.
-/

set_option autoImplicit false

namespace NormalForm

namespace Mixed

-- The probability of a strategy, read without a check.
def share (profile : Mixed ℝ) (player strategy : Nat) : ℝ :=
  profile.probabilities.getD (profile.table.dims.offset player + strategy) 0

def mass (profile : Mixed ℝ) (player : Nat) : ℝ :=
  ((List.range (profile.table.strategyCount player)).map (profile.share player)).sum

theorem share_of_probability (profile : Mixed ℝ) (player strategy : Nat) (value : ℝ)
    (run : profile.probability player strategy = .ok value) : profile.share player strategy = value := by
  rw [probability] at run
  split at run
  · rw [share, List.getD_eq_getElem?_getD, (entry_eq_ok _ _ _).mp run, Option.getD_some]
  · cases run

theorem probability_eq_share (profile : Mixed ℝ) (complete : profile.Complete) (player strategy : Nat)
    (below : strategy < profile.table.strategyCount player) :
    profile.probability player strategy = .ok (profile.share player strategy) := by
  obtain ⟨value, read⟩ := profile.probability_succeeds player strategy complete.length below
  rw [read, share_of_probability profile player strategy value read]

theorem probabilities_eq_shares (profile : Mixed ℝ) (complete : profile.Complete) (player : Nat) (members : List Nat)
    (below : ∀ strategy ∈ members, strategy < profile.table.strategyCount player) :
    members.mapM (profile.probability player) = .ok (members.map (profile.share player)) :=
  map_m_eq_map members _ _ fun strategy member =>
    profile.probability_eq_share complete player strategy (below strategy member)

theorem total_eq_mass (profile : Mixed ℝ) (complete : profile.Complete) (player : Nat)
    (inside : player < profile.table.dims.length) : profile.total player = .ok (profile.mass player) := by
  have known := profile.table.strategy_count_inside player inside
  have whole := Dimensions.total_around _ player _ known
  rw [← complete.length] at whole
  have segment : (profile.probabilities.drop (profile.table.dims.offset player)).take
      (profile.table.strategyCount player) =
        (List.range (profile.table.strategyCount player)).map (profile.share player) := by
    apply List.ext_getElem
    · simp only [List.length_take, List.length_drop, List.length_map, List.length_range]
      omega
    · intro strategy inSegment inRange
      rw [List.length_map, List.length_range] at inRange
      have place : profile.table.dims.offset player + strategy < profile.probabilities.length := by omega
      simp only [List.getElem_take, List.getElem_drop, List.getElem_map, List.getElem_range, share]
      rw [List.getD_eq_getElem _ _ place]
  rw [total, ofPlayer, profile.offset_inside player inside, ok_bind, ok_bind, segment, Exact.sum_eq, mass]

/-! The uniform profile. -/

theorem segment_of_flat_map (part : Nat → List ℝ) (sizes : ∀ d, (part d).length = d) (dims : Dimensions)
    (player d : Nat) (known : dims[player]? = some d) :
    ((dims.flatMap part).drop (dims.offset player)).take d = part d := by
  induction dims generalizing player with
  | nil => cases known
  | cons first rest ih =>
      cases player with
      | zero =>
          have same : first = d := Option.some.inj known
          rw [Dimensions.offset_zero, List.drop_zero, List.flatMap_cons, same]
          exact List.take_left' (sizes d)
      | succ player =>
          have dropped : (part first ++ rest.flatMap part).drop first = rest.flatMap part :=
            List.drop_left' (sizes first)
          rw [Dimensions.offset_cons, List.flatMap_cons, ← List.drop_drop, dropped]
          exact ih player known

theorem uniform_total (table : PayoffTable ℝ) (player : Nat) (inside : player < table.dims.length)
    (strategies : ∀ d ∈ table.dims, 0 < d) : (uniform table).total player = .ok 1 := by
  have known := table.strategy_count_inside player inside
  have positive := strategies _ (List.mem_of_getElem? known)
  have nonzero : (table.strategyCount player : ℝ) ≠ 0 := Nat.cast_ne_zero.mpr (Nat.ne_of_gt positive)
  have segment := segment_of_flat_map
    (fun count => List.replicate count (Arithmetic.one / Arithmetic.ofNat count)) (fun _ => List.length_replicate)
    table.dims player _ known
  rw [total, ofPlayer, (uniform table).offset_inside player inside, ok_bind, ok_bind]
  simp only [uniform]
  rw [segment, Exact.sum_eq, List.sum_replicate, Exact.one_eq, Exact.of_nat_eq, nsmul_eq_mul,
    mul_one_div_cancel nonzero]

end Mixed

namespace Exact

open NormalForm.Path

/-! One mass equation per class, and their sum. -/

theorem mass_row_against (path : Path ℝ) (valid : path.Valid) (player : Nat) (members : List Nat)
    (ranked : Nat) (row : List ℝ) (direction : Nat → ℝ) (isMass : MassRow path player members ranked row)
    (nodup : members.Nodup) (below : ∀ strategy ∈ members, strategy < path.table.strategyCount player) :
    ∑ column ∈ Finset.range (path.table.dims.total + 1), row.getD column 0 * direction column =
      rankWeights path.lambda (path.table.strategyCount player) *
          (members.map fun strategy => direction (path.table.dims.offset player + strategy)).sum +
        massRate path player members.length ranked (members.map (path.profile.share player)) *
          direction path.table.dims.total := by
  obtain ⟨shares, read, last⟩ := isMass.lambda
  have exactly := path.profile.probabilities_eq_shares valid.profile player members below
  have sameShares : shares = members.map (path.profile.share player) :=
    Except.ok.inj (read.symm.trans exactly)
  let places := members.map (path.table.dims.offset player + ·)
  have placesNodup : places.Nodup := nodup.map fun a b same => Nat.add_left_cancel same
  have inside : places.toFinset ⊆ Finset.range path.table.dims.total := by
    intro column listed
    obtain ⟨strategy, member, rfl⟩ := List.mem_map.mp (List.mem_toFinset.mp listed)
    have known := path.table.strategy_known player strategy (below strategy member)
    exact Finset.mem_range.mpr (Dimensions.offset_lt_total _ player strategy _ known (below strategy member))
  have entries : ∀ column ∈ Finset.range path.table.dims.total, row.getD column 0 * direction column =
      if column ∈ places.toFinset then
        rankWeights path.lambda (path.table.strategyCount player) * direction column
      else 0 := by
    intro column listed
    rw [List.getD_eq_getElem?_getD, isMass.strategies column (Finset.mem_range.mp listed), Option.getD_some]
    by_cases own : column ∈ places
    · rw [if_pos own, if_pos (List.mem_toFinset.mpr own)]
    · rw [if_neg own, if_neg (mt List.mem_toFinset.mp own), zero_eq, zero_mul]
  rw [Finset.sum_range_succ, Finset.sum_congr rfl entries, Finset.sum_ite_mem,
    Finset.inter_eq_right.mpr inside, List.sum_toFinset _ placesNodup, List.getD_eq_getElem?_getD, last,
    Option.getD_some, sameShares, List.map_map]
  exact congrArg (· + _) (List.sum_map_mul_left members _ _)

-- The induction is on the classes; `start` is the rank at which they begin.
theorem masses_add_up (weight rate speed : ℝ) (share step slope : Nat → ℝ) (classes : List (List Nat))
    (start : Nat)
    (each : ∀ rank members, classes[rank]? = some members →
      weight * (members.map step).sum + ((members.map share).sum * rate -
        ((List.range' (start + (classes.take rank).flatten.length) members.length).map slope).sum) *
          speed = 0) :
    weight * (classes.flatten.map step).sum + ((classes.flatten.map share).sum * rate -
      ((List.range' start classes.flatten.length).map slope).sum) * speed = 0 := by
  induction classes generalizing start with
  | nil => simp
  | cons first rest ih =>
      have head := each 0 first rfl
      have tail := ih (start + first.length) fun rank members found => by
        have shifted := each (rank + 1) members found
        rw [List.take_succ_cons, List.flatten_cons, List.length_append, ← Nat.add_assoc] at shifted
        exact shifted
      rw [List.take_zero, List.flatten_nil, List.length_nil, Nat.add_zero] at head
      rw [List.flatten_cons, List.map_append, List.map_append, List.sum_append, List.sum_append,
        List.length_append, ← List.range'_append_1, List.map_append, List.sum_append]
      linear_combination head + tail

theorem weights_positive (lambda : ℝ) (n : Nat) (above : 0 < lambda) (strategies : 0 < n) :
    0 < rankWeights lambda n := by
  obtain ⟨size, rfl⟩ := Nat.exists_eq_succ_of_ne_zero (Nat.ne_of_gt strategies)
  have first : (List.range (size + 1)).map (fun r => Arithmetic.power lambda r) =
      1 :: (List.range size).map fun r => lambda ^ (r + 1) := by
    simp [List.range_succ_eq_map, Function.comp_def]
  have others : 0 ≤ ((List.range size).map fun r => lambda ^ (r + 1)).sum := by
    apply List.sum_nonneg
    intro term listed
    obtain ⟨r, -, rfl⟩ := List.mem_map.mp listed
    exact le_of_lt (pow_pos above (r + 1))
  rw [rankWeights, sum_eq, first, List.sum_cons]
  linarith

theorem tangent_keeps_mass (path : Path ℝ) (valid : path.Valid) (player : Nat) (rows : List (List ℝ))
    (inside : player < path.table.dims.length) (built : path.jacobian = .ok rows)
    (above : 0 < path.lambda) (strategies : 0 < path.table.strategyCount player)
    (one : path.profile.mass player = 1) :
    ((List.range (path.table.strategyCount player)).map fun strategy =>
      (tangent path.orientation rows).getD (path.table.dims.offset player + strategy) 0).sum = 0 := by
  obtain ⟨rows', same, height, -, mass⟩ := jacobian_succeeds path valid
  cases built.symm.trans same
  have ranked : path.rankings[player]? = some (path.rankings.get ⟨player, valid.rankings.length_eq ▸ inside⟩) :=
    List.getElem?_eq_getElem _
  generalize path.rankings.get ⟨player, _⟩ = ranking at ranked
  have rankingValid := (valid_ranking path valid player ranking ranked).2
  have perm := Ranking.valid_perm ranking _ rankingValid
  let direction := fun column => (tangent path.orientation rows).getD column 0
  let slope := rankDerivative path.lambda
  have total := masses_add_up (rankWeights path.lambda (path.table.strategyCount player))
    ((List.range (path.table.strategyCount player)).map slope).sum (direction path.table.dims.total)
    (path.profile.share player) (fun strategy => direction (path.table.dims.offset player + strategy)) slope
    ranking.classes 0 fun rank members found => by
      have listed : members ∈ ranking.classes := List.mem_of_getElem? found
      obtain ⟨row, inRows, isMass⟩ := mass player ranking rank members ranked found
      have solved := tangent_orthogonal path.orientation rows row inRows
      rw [height, mass_row_against path valid player members _ row direction isMass
        (Ranking.ascending_nodup members (rankingValid.ascending members listed))
        (Ranking.valid_member_lt ranking _ rankingValid members listed)] at solved
      simpa only [massRate, sum_eq, Nat.zero_add] using solved
  have length : ranking.classes.flatten.length = path.table.strategyCount player := by
    rw [perm.length_eq, List.length_range]
  have shares : (ranking.classes.flatten.map (path.profile.share player)).sum = 1 :=
    (perm.map _).sum_eq.trans one
  rw [shares, length, ← List.range_eq_range', (perm.map _).sum_eq, one_mul, sub_self, zero_mul, add_zero] at total
  exact (mul_eq_zero.mp total).resolve_left (ne_of_gt (weights_positive _ _ above strategies))

theorem sign_of_direction (direction other : List ℝ) (same : SameUpToSign direction other) :
    ∃ sign : ℝ, ∀ column, other.getD column 0 = sign * direction.getD column 0 := by
  rcases same with equal | negated
  · exact ⟨1, fun column => by rw [equal, one_mul]⟩
  · refine ⟨-1, fun column => ?_⟩
    have flipped : (direction.map fun t => -t).getD column (-0) = -direction.getD column 0 :=
      List.getD_map direction 0 fun t => -t
    rw [neg_zero] at flipped
    rw [negated, neg_one_mul]
    exact flipped

theorem moved_entry (probabilities direction : List ℝ) (scale : ℝ) (columns place : Nat)
    (inProfile : place < probabilities.length) (inColumns : place < columns)
    (inDirection : place < direction.length) :
    (List.zipWith (· + ·) probabilities ((direction.take columns).map fun t => t * scale)).getD place 0 =
      probabilities.getD place 0 + direction.getD place 0 * scale := by
  have inSum : place <
      (List.zipWith (· + ·) probabilities ((direction.take columns).map fun t => t * scale)).length := by
    simp only [List.length_zipWith, List.length_map, List.length_take]
    omega
  rw [List.getD_eq_getElem _ _ inSum, List.getD_eq_getElem _ _ inProfile,
    List.getD_eq_getElem _ _ inDirection, List.getElem_zipWith, List.getElem_map, List.getElem_take]

theorem displaced_mass (path : Path ℝ) (valid : path.Valid) (after : Mixed ℝ)
    (displaced : Displaced path after) (player : Nat) (inside : player < path.table.dims.length)
    (above : 0 < path.lambda) (strategies : 0 < path.table.strategyCount player)
    (one : path.profile.mass player = 1) : after.mass player = 1 := by
  rcases displaced with same | ⟨rows, direction, built, sameUpToSign, scale, rfl⟩
  · rw [same, one]
  · obtain ⟨rows', sameRows, height, -⟩ := jacobian_succeeds path valid
    cases built.symm.trans sameRows
    obtain ⟨sign, entries⟩ := sign_of_direction _ direction sameUpToSign
    have length : direction.length = path.table.dims.total + 1 := by
      rcases sameUpToSign with equal | negated
      · rw [equal, tangent_length, height]
      · rw [negated, List.length_map, tangent_length, height]
    have known := path.table.strategy_count_inside player inside
    have balanced := tangent_keeps_mass path valid player rows inside built above strategies one
    have moved : ∀ strategy ∈ List.range (path.table.strategyCount player),
        Mixed.share
            { path.profile with
              probabilities := List.zipWith (· + ·) path.profile.probabilities
                ((direction.take path.table.dims.total).map fun t => t * scale) } player strategy =
          path.profile.share player strategy +
            (tangent path.orientation rows).getD (path.table.dims.offset player + strategy) 0 * (sign * scale) := by
      intro strategy listed
      have place := Dimensions.offset_lt_total _ player strategy _ known (List.mem_range.mp listed)
      have entry := moved_entry path.profile.probabilities direction scale _ _
        (valid.profile.length.symm ▸ place) place (length.symm ▸ Nat.lt_succ_of_lt place)
      refine entry.trans ?_
      rw [entries, mul_comm sign, mul_assoc]
      rfl
    have total := congrArg List.sum (List.map_congr_left moved)
    rw [List.sum_map_add, List.sum_map_mul_right, balanced, zero_mul, add_zero] at total
    exact total.trans one

theorem advance_mass (path : Path ℝ) (valid : path.Valid) (above : 0 < path.lambda)
    (strategies : ∀ d ∈ path.table.dims, 0 < d)
    (one : ∀ player < path.table.dims.length, path.profile.mass player = 1) (step : Nat) (config : Config ℝ) :
    ∃ attempt, path.advance step config = .ok attempt ∧ attempt.path.Valid ∧
      attempt.path.table = path.table ∧
      ∀ player < path.table.dims.length, attempt.path.profile.mass player = 1 := by
  obtain ⟨attempt, advanced, attemptValid, displaced⟩ := path.advance_succeeds valid step config
  refine ⟨attempt, advanced, attemptValid, displaced_table path _ displaced, ?_⟩
  intro player inside
  have known := path.table.strategy_count_inside player inside
  exact displaced_mass path valid _ displaced player inside above
    (strategies _ (List.mem_of_getElem? known)) (one player inside)

end Exact

namespace Run

theorem above_floor_positive (run : Run ℝ) (config : Config ℝ) (floor : 0 ≤ config.lambdaFloor)
    (above : run.aboveFloor config) : 0 < run.path.lambda :=
  lt_of_le_of_lt floor (of_decide_eq_true above)

theorem reached_mass (table : PayoffTable ℝ) (complete : table.Complete)
    (words : ∀ d ∈ table.dims, d < Word.size) (config : Config ℝ) (floor : 0 ≤ config.lambdaFloor)
    (run : Run ℝ) (reached : Reached table config run) :
    (∀ d ∈ table.dims, 0 < d) ∧ ∀ player < table.dims.length, run.path.profile.mass player = 1 := by
  induction reached with
  | start path begun =>
      obtain ⟨outcome, same, begins⟩ := Path.start_succeeds table complete words config
      have first := begins path (Except.ok.inj (same.symm.trans begun))
      refine ⟨first.strategies, fun player inside => ?_⟩
      have total := Mixed.uniform_total table player inside first.strategies
      have mass := Mixed.total_eq_mass _ (Mixed.uniform_complete table complete) player inside
      exact (congrArg (Mixed.mass · player) first.profile).trans (Except.ok.inj (mass.symm.trans total))
  | step run next before above taken ih =>
      obtain ⟨strategies, one⟩ := ih
      obtain ⟨valid, same⟩ := reached_valid table complete words config run before
      obtain ⟨attempt, advanced, -, -, mass⟩ := Exact.advance_mass run.path valid
        (above_floor_positive run config floor above) (same.symm ▸ strategies) (same.symm ▸ one)
        (run.steps + 1) config
      obtain ⟨outcome, attempt', ended, advanced', -, -, moved⟩ := step_succeeds run valid config
      cases advanced.symm.trans advanced'
      have here : next.path = attempt.path := moved next (Except.ok.inj (ended.symm.trans taken))
      exact ⟨strategies, fun player inside => here ▸ mass player (same.symm ▸ inside)⟩

end Run

-- The profile after a step counts, whether or not the step was found feasible.
theorem Game.step_keeps_total_mass (game : Game) (reachable : game.Reachable) (config : Config ℝ)
    (floor : 0 ≤ config.lambdaFloor) (run : Run ℝ) (reached : run.Reached (.ofGame game) config)
    (above : run.aboveFloor config) :
    ∃ attempt, run.path.advance (run.steps + 1) config = .ok attempt ∧
      ∀ player < game.dimensions.length, attempt.path.profile.total player = .ok 1 := by
  have gameValid := reachable_well_formed game reachable
  have complete : (PayoffTable.ofGame game : PayoffTable ℝ).Complete :=
    PayoffTable.of_game_complete game gameValid
  have words := Dimensions.words_of_count game.dimensions gameValid.addressable
  obtain ⟨strategies, one⟩ := Run.reached_mass _ complete words config floor run reached
  obtain ⟨valid, same⟩ := Run.reached_valid _ complete words config run reached
  obtain ⟨attempt, advanced, attemptValid, table, mass⟩ := Exact.advance_mass run.path valid
    (Run.above_floor_positive run config floor above) (same.symm ▸ strategies) (same.symm ▸ one)
    (run.steps + 1) config
  refine ⟨attempt, advanced, fun player inside => ?_⟩
  have dims : attempt.path.profile.table.dims = game.dimensions :=
    congrArg PayoffTable.dims (table.trans same)
  rw [Mixed.total_eq_mass _ attemptValid.profile player (dims.symm ▸ inside),
    mass player (same.symm ▸ inside)]

/-! One player with a better and a worse strategy. -/

-- A player alone earns the payoff of the strategy.
theorem lone_strategy_value (table : PayoffTable ℝ) (count strategy : Nat) (earned : ℝ)
    (dims : table.dims = [count]) (below : strategy < count) (paid : table.payoff strategy 0 = .ok earned) :
    (Mixed.uniform table).strategyValue 0 strategy = .ok earned := by
  have same : (Mixed.uniform table).table = table := rfl
  have fixed : Dimensions.fix [count] [(0, strategy)] = .ok [some strategy] := by
    simp [Dimensions.fix, Dimensions.fixOne, entry, below]
  have weight : (Mixed.uniform table).weight [some strategy] [strategy] = .ok 1 := by
    simp [Mixed.weight, Mixed.freeFactors, Arithmetic.product]
  have index : Dimensions.index [count] [strategy] = strategy := by
    simp [Dimensions.index]
  have term : (Mixed.uniform table).term 0 [some strategy] [strategy] = .ok earned := by
    simp [Mixed.term, weight, Arithmetic.same, same, dims, index, paid]
  have vectors : (Mixed.uniform table).pureVectors [some strategy] = [[strategy]] := by
    simp [Mixed.pureVectors, same, dims, Dimensions.vectors]
  simp [Mixed.strategyValue, Mixed.conditional_eq, same, dims, fixed, Mixed.expected, vectors, term]

theorem lone_player_starts (table : PayoffTable ℝ) (config : Config ℝ) (dims : table.dims = [2])
    (first : table.payoff 0 0 = .ok 1) (second : table.payoff 1 0 = .ok 0)
    (tolerance : config.tieTolerance = 0) :
    ∃ path, Path.start table config = .ok (.ok path) ∧ path.lambda = 1 := by
  have values : (List.range 2).mapM ((Mixed.uniform table).strategyValue 0) = .ok [1, 0] := by
    have better := lone_strategy_value table 2 0 1 dims (by decide) first
    have worse := lone_strategy_value table 2 1 0 dims (by decide) second
    simp [List.range_succ, better, worse]
  have ordered : Ranking.ranksBefore ((1 : ℝ), 0) (0, 1) = true := by
    have below : Arithmetic.order (0 : ℝ) 1 = .lt := compare_lt_iff_lt.mpr one_pos
    simp [Ranking.ranksBefore, below]
  have apart : ¬ Arithmetic.le ((1 : ℝ) - 0) (config.tieTolerance * Arithmetic.max table.scale Arithmetic.one) = true := by
    simp [tolerance]
  rw [Path.lone_pair_start table config dims 1 0 values ordered, if_neg apart]
  exact ⟨_, rfl, Exact.one_eq⟩

theorem lone_player_game : ∃ game, (Game.blank [2]).performAll
      [.newOutcome ⟨1⟩, .setPayoff ⟨1⟩ 0 1, .setOutcome [0] (some ⟨1⟩)] = .ok game ∧ game.dimensions = [2] ∧
    (PayoffTable.ofGame game : PayoffTable ℝ).payoff 0 0 = .ok 1 ∧
    (PayoffTable.ofGame game : PayoffTable ℝ).payoff 1 0 = .ok 0 := by
  obtain ⟨game, made, dims, better, worse⟩ : ∃ game, (Game.blank [2]).performAll
      [.newOutcome ⟨1⟩, .setPayoff ⟨1⟩ 0 1, .setOutcome [0] (some ⟨1⟩)] = .ok game ∧ game.dimensions = [2] ∧
      game.cells[0]?.map (fun cell => (cell.bind fun place => game.outcomes[place]?).map Outcome.payoffs) =
        some (some [1]) ∧
      game.cells[1]? = some none := ⟨_, rfl, rfl, rfl, rfl⟩
  refine ⟨game, made, dims, ?_, ?_⟩
  · obtain ⟨cell, held, paid⟩ := Option.map_eq_some_iff.mp better
    obtain ⟨outcome, found, payoffs⟩ := Option.map_eq_some_iff.mp paid
    rw [PayoffTable.of_game_payoff, held]
    simp only [found, payoffs]
    exact congrArg Except.ok Rat.cast_one
  · rw [PayoffTable.of_game_payoff, worse]
    exact congrArg Except.ok Rat.cast_zero

theorem Game.step_keeps_total_mass_choice :
    ∃ game, (blank [2]).performAll
        [.newOutcome ⟨1⟩, .setPayoff ⟨1⟩ 0 1, .setOutcome [0] (some ⟨1⟩)] = .ok game ∧
      ∃ (run : Run ℝ) (attempt : Path.Attempt ℝ),
        run.path.advance (run.steps + 1) (⟨1, 0, 1, 0, 0, 0⟩ : Config ℝ) = .ok attempt ∧
        attempt.path.profile.total 0 = .ok 1 := by
  let config : Config ℝ := ⟨1, 0, 1, 0, 0, 0⟩
  obtain ⟨game, made, dims, first, second⟩ := lone_player_game
  obtain ⟨path, begun, lambda⟩ := lone_player_starts _ config dims first second rfl
  have above : (Run.ofPath path).aboveFloor config := by
    simp [Run.aboveFloor, Run.ofPath, lambda, config]
  obtain ⟨attempt, advanced, total⟩ := step_keeps_total_mass game ⟨[2], _, _, rfl, made⟩ config (le_refl 0)
    (.ofPath path) (.start path begun) above
  exact ⟨game, made, _, attempt, advanced, total 0 (by simp [dims])⟩

end NormalForm
