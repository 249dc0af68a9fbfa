import NormalForm.Proofs.Exact.Predictor
import NormalForm.Proofs.Exact.Reversal

/-!
The step after a change of rankings, in exact arithmetic. If its heading counts, it moves into the region of the
new rankings, and otherwise lambda does not rise. The walk keeps the orientation of this step, turned once more
for every class that the step itself merges.
-/

set_option autoImplicit false

namespace NormalForm

-- The derivative of a value, read without a check.
noncomputable def Mixed.slope (profile : Mixed ℝ) (player strategy other otherStrategy : Nat) : ℝ :=
  (profile.derivative player strategy other otherStrategy).toOption.getD 0

theorem Mixed.derivative_eq_slope (profile : Mixed ℝ) (complete : profile.Complete)
    (player strategy other otherStrategy : Nat) (below : strategy < profile.table.strategyCount player)
    (otherBelow : otherStrategy < profile.table.strategyCount other) :
    profile.derivative player strategy other otherStrategy =
      .ok (profile.slope player strategy other otherStrategy) := by
  obtain ⟨value, run⟩ := profile.derivative_succeeds complete player strategy other otherStrategy below otherBelow
  rw [slope, run]
  rfl

namespace Path

/-! How far a displacement goes into a region. -/

-- With the fall of lambda, the fall of the better of two merged classes, or the lead of one of two new
-- classes over the other.
noncomputable def gain (path : Path ℝ) (moved : Nat → ℝ) : Restructure → ℝ
  | .start => -moved path.table.dims.total
  | .merged player upper => -(upper.map fun strategy => moved (path.table.dims.offset player + strategy)).sum
  | .parted player upper lower =>
      ∑ other ∈ (Finset.range path.table.dims.length).erase player,
        ∑ strategy ∈ Finset.range (path.table.strategyCount other),
          (path.profile.slope player upper other strategy - path.profile.slope player lower other strategy) *
            moved (path.table.dims.offset other + strategy)

theorem gain_scaled (path : Path ℝ) (change : Restructure) (fits : change.Fits path.table) (moved results : Nat → ℝ)
    (k : ℝ) (scaled : ∀ column ≤ path.table.dims.total, results column = k * moved column) :
    path.gain results change = k * path.gain moved change := by
  have place (player strategy : Nat) (below : strategy < path.table.strategyCount player) :
      results (path.table.dims.offset player + strategy) = k * moved (path.table.dims.offset player + strategy) := by
    have known := path.table.strategy_known player strategy below
    exact scaled _ (Nat.le_of_lt (Dimensions.offset_lt_total _ player strategy _ known below))
  cases change with
  | start => rw [gain, gain, scaled _ le_rfl, mul_neg]
  | merged player upper =>
      rw [gain, gain, List.map_congr_left fun strategy member => place player strategy (fits.2 strategy member),
        List.sum_map_mul_left, mul_neg]
  | parted player upper lower =>
      rw [gain, gain, Finset.mul_sum]
      refine Finset.sum_congr rfl fun other _ => ?_
      rw [Finset.mul_sum]
      refine Finset.sum_congr rfl fun strategy listed => ?_
      rw [place other strategy (Finset.mem_range.mp listed), mul_left_comm]

theorem fall_eq (direction : List ℝ) (total : Nat) (length : direction.length = total + 1) :
    fallOfLambda direction = -direction.getD total 0 := by
  rw [fallOfLambda, List.getLastD_eq_getLast?, List.getLast?_eq_getElem?, length, Nat.add_sub_cancel,
    List.getD_eq_getElem?_getD, Exact.zero_eq]

theorem gap_terms_eq (path : Path ℝ) (valid : path.Valid) (player upper lower other : Nat) (direction : List ℝ)
    (length : direction.length = path.table.dims.total + 1) (upperBelow : upper < path.table.strategyCount player)
    (lowerBelow : lower < path.table.strategyCount player) (inside : other < path.table.dims.length) :
    path.gapTerms player upper lower direction other =
      .ok ((List.range (path.table.strategyCount other)).map fun strategy =>
        (path.profile.slope player upper other strategy - path.profile.slope player lower other strategy) *
          direction.getD (path.table.dims.offset other + strategy) 0) := by
  have known := path.table.strategy_count_inside other inside
  rw [gapTerms, path.profile.offset_inside other inside, ok_bind]
  refine map_m_eq_map _ _ _ fun strategy listed => ?_
  have below := List.mem_range.mp listed
  have place := Dimensions.offset_lt_total _ other strategy _ known below
  have column : path.table.dims.offset other + strategy < direction.length := by omega
  rw [path.profile.derivative_eq_slope valid.profile player upper other strategy upperBelow below, ok_bind,
    path.profile.derivative_eq_slope valid.profile player lower other strategy lowerBelow below, ok_bind,
    List.getD_eq_getElem _ _ column]
  exact congrArg (· >>= _) (entry_inside direction _ column)

theorem heading_eq_gain (path : Path ℝ) (valid : path.Valid) (change : Restructure) (fits : change.Fits path.table)
    (direction : List ℝ) (length : direction.length = path.table.dims.total + 1) :
    path.heading change direction = .ok (path.gain (fun column => direction.getD column 0) change) := by
  cases change with
  | start => rw [heading, gain, fall_eq direction _ length]
  | merged player upper =>
      obtain ⟨inside, below⟩ := fits
      have known := path.table.strategy_count_inside player inside
      have read : (upper.mapM fun strategy => entry direction (path.table.dims.offset player + strategy)) =
          .ok (upper.map fun strategy => direction.getD (path.table.dims.offset player + strategy) 0) := by
        refine map_m_eq_map _ _ _ fun strategy member => ?_
        have place := Dimensions.offset_lt_total _ player strategy _ known (below strategy member)
        have column : path.table.dims.offset player + strategy < direction.length := by omega
        rw [entry_inside direction _ column, List.getD_eq_getElem _ _ column]
      rw [heading, path.profile.offset_inside player inside, ok_bind]
      exact (congrArg (· >>= _) read).trans (congrArg (fun sum => Except.ok (-sum)) (Exact.sum_eq _))
  | parted player upper lower =>
      obtain ⟨upperBelow, lowerBelow⟩ := fits
      have read := map_m_eq_map ((List.range path.profile.players).filter fun other => other != player)
        (path.gapTerms player upper lower direction) _ fun other member =>
          path.gap_terms_eq valid player upper lower other direction length upperBelow lowerBelow
            (List.mem_range.mp (List.mem_filter.mp member).1)
      have others : ((List.range path.profile.players).filter fun other => other != player).toFinset =
          (Finset.range path.table.dims.length).erase player := by
        ext other
        simp [Mixed.players, Path.table, and_comm]
      rw [heading, read, ok_bind, Exact.sum_eq, List.sum_flatten, List.map_map, gain, ← others,
        List.sum_toFinset _ (List.nodup_range.filter _)]
      refine congrArg (fun terms => Except.ok (List.sum terms)) (List.map_congr_left fun other _ => ?_)
      exact Exact.sum_of_range _ _

/-! The direction after the change is settled. -/

theorem tangent_neg (orientation : ℝ) (rows : List (List ℝ)) :
    tangent (-orientation) rows = (tangent orientation rows).map (- ·) := by
  rw [tangent, tangent, List.map_map]
  refine List.map_congr_left fun column _ => ?_
  rw [Function.comp_apply, neg_mul, neg_mul]

theorem orient_bearing (path : Path ℝ) (rows : List (List ℝ)) (oriented : Oriented ℝ)
    (settled : path.orient (tangent path.orientation rows) = .ok oriented) :
    (oriented.path.orientation = path.orientation ∨ oriented.path.orientation = -path.orientation) ∧
      oriented.direction = tangent oriented.path.orientation rows := by
  rcases orient_cases path _ oriented settled with ⟨same, direction⟩ | ⟨turned, direction⟩
  · rw [same, direction]
    exact ⟨.inl rfl, rfl⟩
  · rw [turned, direction]
    exact ⟨.inr rfl, (tangent_neg path.orientation rows).symm⟩

-- A heading that counts is positive once the walk is settled, and in place of one that does not, lambda must not rise.
theorem orient_heads (path : Path ℝ) (change : Restructure) (pending : path.pending = some change)
    (direction : List ℝ) (rate : ℝ) (read : path.heading change direction = .ok rate) (oriented : Oriented ℝ)
    (settled : path.orient direction = .ok oriented) :
    ∃ settledRate, path.heading change oriented.direction = .ok settledRate ∧
      if path.threshold direction < |rate| then 0 < settledRate else 0 ≤ fallOfLambda oriented.direction := by
  rw [orient_pending path _ change pending, read, ok_bind] at settled
  by_cases turns : path.Reverses rate direction
  · rw [if_pos turns] at settled
    cases settled
    have opposite : direction.map (- ·) = direction.map fun entry => -1 * entry :=
      List.map_congr_left fun entry _ => (neg_one_mul entry).symm
    refine ⟨-1 * rate, ?_, ?_⟩
    · rw [opposite, Exact.heading_multiplied, read]
      rfl
    · rw [Reverses] at turns
      split
      · rename_i counts
        rw [if_neg (not_le.mpr counts)] at turns
        rw [neg_one_mul]
        exact neg_pos.mpr turns
      · rename_i small
        rw [if_pos (not_lt.mp small)] at turns
        rw [opposite, Exact.fall_multiplied, neg_one_mul]
        exact (neg_pos.mpr turns).le
  · rw [if_neg turns] at settled
    cases settled
    refine ⟨rate, read, ?_⟩
    rw [Reverses] at turns
    split
    · rename_i counts
      rw [if_neg (not_le.mpr counts)] at turns
      have nonzero : rate ≠ 0 := abs_pos.mp ((path.threshold_nonneg _).trans_lt counts)
      exact (not_lt.mp turns).lt_of_ne nonzero.symm
    · rename_i small
      rw [if_pos (not_lt.mp small)] at turns
      exact not_lt.mp turns

theorem largest_entry (direction : List ℝ) (some : direction ≠ []) :
    IsGreatest {size | ∃ entry ∈ direction, size = |entry|} (Arithmetic.largest (direction.map Arithmetic.abs)) := by
  obtain ⟨-, above⟩ := (Exact.largest_le_iff (direction.map Arithmetic.abs) _).mp le_rfl
  obtain ⟨peak, listed, highest⟩ := direction.toFinset.exists_max_image abs ((List.toFinset_nonempty_iff _).mpr some)
  rw [List.mem_toFinset] at listed
  have below : Arithmetic.largest (direction.map Arithmetic.abs) ≤ |peak| := by
    rw [Exact.largest_le_iff, List.forall_mem_map]
    exact ⟨abs_nonneg peak, fun entry member => highest entry (List.mem_toFinset.mpr member)⟩
  refine ⟨⟨peak, listed, le_antisymm below (above _ (List.mem_map_of_mem listed))⟩, ?_⟩
  rintro size ⟨entry, member, rfl⟩
  exact above _ (List.mem_map_of_mem member)

/-! The step. -/

theorem turned_orientation (orientation : ℝ) (count : Nat) :
    (fun bearing => -bearing)^[count] orientation = (-1) ^ count * orientation := by
  induction count with
  | zero => rw [Function.iterate_zero_apply, pow_zero, one_mul]
  | succ count ih => rw [Function.iterate_succ_apply', ih, pow_succ, mul_neg_one, neg_mul]

-- The largest entry of the tangent is the same either way.
theorem first_step_heads_into_region (path : Path ℝ) (valid : path.Valid) (change : Restructure)
    (pending : path.pending = some change) (step : Nat) (config : Config ℝ) (positive : 0 < config.stepSize) :
    ∃ rows rate peak attempt, path.jacobian = .ok rows ∧
      path.heading change (tangent path.orientation rows) = .ok rate ∧
      IsGreatest {size | ∃ entry ∈ tangent path.orientation rows, size = |entry|} peak ∧
      path.advance step config = .ok attempt ∧
      (attempt.failure ≠ some (.degenerate step path.lambda) →
        (if headingTolerance * (peak * max path.table.scale 1) < |rate|
          then 0 < path.gain (displacement path attempt.path) change
          else displacement path attempt.path path.table.dims.total ≤ 0) ∧
        ∃ bearing, (bearing = path.orientation ∨ bearing = -path.orientation) ∧
          (∀ column ≤ path.table.dims.total, displacement path attempt.path column =
            (tangent bearing rows).getD column 0 * (config.stepSize / length (tangent bearing rows))) ∧
          ∃ merged, attempt.path.merges = path.merges + merged ∧
            attempt.path.orientation = (-1) ^ merged * bearing) := by
  obtain ⟨rows, ⟨oriented, direction, turned⟩, built, settled, orientedValid, place, -, length⟩ :=
    turn_succeeds path valid
  obtain ⟨attempt, advanced, -⟩ := advance_succeeds path valid step config
  have table : oriented.table = path.table := congrArg Mixed.table place.profile
  have lambda : oriented.lambda = path.lambda := place.lambda
  have fits := valid.pending change pending
  have size : (tangent path.orientation rows).length = path.table.dims.total + 1 := by
    rw [tangent_length, jacobian_height path rows built]
  have some : tangent path.orientation rows ≠ [] := List.ne_nil_of_length_eq_add_one size
  obtain ⟨rate, read⟩ := heading_succeeds path valid change _ fits size
  refine ⟨rows, rate, _, attempt, built, read, largest_entry _ some, advanced, fun goes => ?_⟩
  have proceeds := (advance_proceeds path step config rows _ built settled).symm.trans advanced
  obtain ⟨bearing, tangents⟩ := orient_bearing path rows _ settled
  obtain ⟨settledRate, settledRead, heads⟩ := orient_heads path change pending _ rate read _ settled
  obtain ⟨counter, -⟩ := orient_counts path _ _ settled
  dsimp only at length proceeds tangents counter settledRead heads bearing
  have moves := proceed_displaces oriented orientedValid direction length _ step config attempt proceeds
  have long : hasLength (Path.length direction) = true := by
    by_contra short
    rw [if_neg short, lambda] at moves
    exact goes moves
  rw [if_pos long] at moves
  simp only [displacement, point_of_place path oriented place.profile lambda, table] at moves
  have pace : 0 < config.stepSize / Path.length direction := div_pos positive (has_length_positive _ long)
  obtain ⟨-, displaced⟩ := moves
  rw [table] at length
  refine ⟨?_, oriented.orientation, bearing, ?_, ?_⟩
  · have headed := heading_eq_gain path valid change fits direction length
    rw [Except.ok.inj (settledRead.symm.trans headed)] at heads
    split
    · rename_i counts
      rw [threshold, if_pos counts] at heads
      rw [path.gain_scaled change fits (fun column => direction.getD column 0) (displacement path attempt.path)
        (config.stepSize / Path.length direction) fun column inside => by
          rw [displacement, displaced column inside, mul_comm]]
      exact mul_pos pace heads
    · rename_i small
      rw [threshold, if_neg small, fall_eq direction _ length, Left.nonneg_neg_iff] at heads
      rw [displacement, displaced _ le_rfl]
      exact mul_nonpos_of_nonpos_of_nonneg heads pace.le
  · intro column inside
    rw [displacement, displaced column inside, tangents]
  · obtain ⟨repairs, merges, orientation⟩ := proceed_turns oriented direction _ step config attempt proceeds
    exact ⟨repairs.countP Event.isMerge, counter ▸ merges, orientation.trans (turned_orientation _ _)⟩

-- The merged strategy falls: its heading is a large number of thresholds below zero, and the walk turns around.
theorem first_step_heads_into_region_merged :
    ∃ attempt, Reversal.path.advance 1 Reversal.stride = .ok attempt ∧ attempt.failure = none ∧
      displacement Reversal.path attempt.path 0 < 0 := by
  have positive : 0 < Reversal.stride.stepSize := by
    rw [Reversal.pace_eq]
    exact one_half_pos
  obtain ⟨rows, rate, peak, attempt, built, read, greatest, advanced, goes⟩ :=
    first_step_heads_into_region Reversal.path Reversal.path_valid (.merged 0 [0]) rfl 1 Reversal.stride positive
  cases built.symm.trans Reversal.rows_eq
  have tangents : tangent Reversal.path.orientation Reversal.rows = [22, -22, 0, 0, 0] := Reversal.tangent_eq
  rw [tangents] at read greatest
  cases read.symm.trans Reversal.heading_eq
  have counts : headingTolerance * (peak * max Reversal.path.table.scale 1) < |(-22 : ℝ)| := by
    rw [greatest.unique (largest_entry _ (List.cons_ne_nil _ _))]
    have small := Reversal.threshold_eq
    rw [threshold] at small
    rw [small]
    norm_num
  obtain ⟨other, again, feasible, -⟩ := Reversal.small_step
  cases advanced.symm.trans again
  have moves : attempt.failure ≠ some (.degenerate 1 Reversal.path.lambda) :=
    feasible ▸ (Option.some_ne_none _).symm
  obtain ⟨heads, -⟩ := goes moves
  rw [if_pos counts, gain, neg_pos, List.map_singleton, List.sum_singleton] at heads
  exact ⟨attempt, advanced, feasible, heads⟩

end Path

end NormalForm
