import Mathlib.Algebra.BigOperators.Ring.List
import Mathlib.Algebra.BigOperators.Group.Finset.Basic
import Mathlib.Tactic.Ring
import NormalForm.Proofs.Exact.Cofactor
import NormalForm.Proofs.Rescaling.Run
import NormalForm.Proofs.Solver.Representation

/-!
The unit of payoff, in exact arithmetic. Payoffs multiplied by a constant multiply equations, so that
the direction keeps its ray and the step is the same. Tolerances go with the largest payoff. The
heading of a merge does not: it is a probability, held against a threshold that is a payoff.
-/

set_option autoImplicit false

namespace NormalForm

namespace Exact

theorem multiplication_rescales (c : ℝ) (positive : 0 < c) : Rescaling (fun payoff : ℝ => c * payoff) := by
  refine ⟨?_, ?_, ?_, ?_, ?_, ?_⟩
  · rw [zero_eq, mul_zero]
  · intro weight payoff
    ring
  · intro payoff rate
    ring
  · intro a b
    ring
  · intro terms
    rw [sum_eq, sum_eq, List.sum_map_mul_left, List.map_id']
  · intro a b
    exact decide_eq_decide.mpr (mul_le_mul_iff_right₀ positive)

theorem largest_multiplied (k : ℝ) (positive : 0 < k) (values : List ℝ) :
    Arithmetic.largest (values.map fun value => k * value) = k * Arithmetic.largest values := by
  refine eq_of_forall_ge_iff fun bound => ?_
  rw [largest_le_iff, ← le_div_iff₀' positive, largest_le_iff, List.forall_mem_map]
  refine and_congr ?_ ?_
  · rw [le_div_iff₀' positive, mul_zero]
  · exact forall₂_congr fun value _ => (le_div_iff₀' positive).symm

/-! The start: a common factor of values and tolerance leaves the ranking as it is. -/

theorem descending_multiplied (c : ℝ) (positive : 0 < c) (values : List ℝ) :
    Ranking.descending (values.map fun value => c * value) =
      (Ranking.descending values).map fun pair => (c * pair.1, pair.2) := by
  rw [Ranking.descending, Ranking.descending, List.zipIdx_map]
  refine (List.map_mergeSort ?_).symm
  intro a _ b _
  have order : Arithmetic.order (c * b.1) (c * a.1) = Arithmetic.order b.1 a.1 := by
    cases compared : Arithmetic.order b.1 a.1 with
    | lt => exact compare_lt_iff_lt.mpr (mul_lt_mul_of_pos_left (compare_lt_iff_lt.mp compared) positive)
    | eq => exact compare_eq_iff_eq.mpr (congrArg (c * ·) (compare_eq_iff_eq.mp compared))
    | gt => exact compare_gt_iff_gt.mpr (mul_lt_mul_of_pos_left (compare_gt_iff_gt.mp compared) positive)
  simp only [Ranking.ranksBefore, Prod.map, id, order]

theorem first_tie_multiplied (c : ℝ) (positive : 0 < c) (tolerance : ℝ) (sorted : List (ℝ × Nat)) :
    Ranking.firstTie? (c * tolerance) (sorted.map fun pair => (c * pair.1, pair.2)) =
      Ranking.firstTie? tolerance sorted := by
  induction sorted with
  | nil => rfl
  | cons a rest ih =>
      cases rest with
      | nil => rfl
      | cons b rest =>
          have gap : Arithmetic.le (c * a.1 - c * b.1) (c * tolerance) = Arithmetic.le (a.1 - b.1) tolerance := by
            rw [← mul_sub]
            exact decide_eq_decide.mpr (mul_le_mul_iff_right₀ positive)
          rw [List.map_cons, List.map_cons, Ranking.firstTie?, Ranking.firstTie?, gap]
          split
          · rfl
          · exact ih

theorem by_payoff_multiplied (c : ℝ) (positive : 0 < c) (values : List ℝ) (tolerance : ℝ) :
    Ranking.byPayoff (values.map fun value => c * value) (c * tolerance) = Ranking.byPayoff values tolerance := by
  simp only [Ranking.byPayoff, descending_multiplied c positive, first_tie_multiplied c positive, List.map_map]
  rfl

/-! The matrix and the direction. -/

-- A row rescaled by a factor of its own.
def RowMultiple (row result : List ℝ) : Prop := ∃ factor : ℝ, 0 < factor ∧ result = row.map fun entry => factor * entry

theorem multiple_of_rescaled (c : ℝ) (positive : 0 < c) (row result : List ℝ)
    (rescaled : Path.Rescaled (fun entry : ℝ => c * entry) row result) : RowMultiple row result := by
  rcases rescaled with same | mapped
  · exact ⟨1, one_pos, by simp [same]⟩
  · exact ⟨c, positive, mapped⟩

-- Rows with factors of their own multiply all determinants of columns alike.
theorem det_multiplied (rows results : List (List ℝ)) (multiples : List.Forall₂ RowMultiple rows results) :
    ∃ k : ℝ, 0 < k ∧ ∀ column, Scalar.det (results.map fun row => row.eraseIdx column) =
      k * Scalar.det (rows.map fun row => row.eraseIdx column) := by
  obtain ⟨sizes, each⟩ := List.forall₂_iff_get.mp multiples
  choose factor positive scaled using each
  let share (row : Fin rows.length) : ℝ := factor row row.isLt (sizes ▸ row.isLt)
  refine ⟨∏ row, share row, Finset.prod_pos fun row _ => positive row row.isLt (sizes ▸ row.isLt), ?_⟩
  intro column
  have size : (rows.map fun row => row.eraseIdx column).length = rows.length := List.length_map _
  have resultSize : (results.map fun row => row.eraseIdx column).length = rows.length :=
    (List.length_map _).trans sizes.symm
  have entries : matrixOf (results.map fun row => row.eraseIdx column) rows.length rows.length =
      Matrix.of fun row other => share row *
        matrixOf (rows.map fun row => row.eraseIdx column) rows.length rows.length row other := by
    ext row other
    have inside : (row : Nat) < results.length := sizes ▸ row.isLt
    have result := scaled row row.isLt inside
    rw [List.get_eq_getElem, List.get_eq_getElem] at result
    have upper : (results.map fun row => row.eraseIdx column).getD row [] =
        (rows[row].eraseIdx column).map fun entry => share row * entry := by
      rw [List.getD_eq_getElem _ _ (lt_of_lt_of_eq row.isLt resultSize.symm), List.getElem_map, result,
        List.eraseIdx_map]
      rfl
    have lower : (rows.map fun row => row.eraseIdx column).getD row [] = rows[row].eraseIdx column := by
      rw [List.getD_eq_getElem _ _ (lt_of_lt_of_eq row.isLt size.symm), List.getElem_map]
      rfl
    have read := List.getD_map (rows[row].eraseIdx column) (0 : ℝ) (n := other) fun entry => share row * entry
    rw [mul_zero] at read
    rw [Matrix.of_apply, matrixOf, matrixOf, upper, lower, read]
  rw [det_eq, det_eq, size, resultSize, entries, Matrix.det_mul_column]

theorem tangent_multiplied (orientation : ℝ) (rows results : List (List ℝ))
    (multiples : List.Forall₂ RowMultiple rows results) :
    ∃ k : ℝ, 0 < k ∧
      Path.tangent orientation results = (Path.tangent orientation rows).map fun entry => k * entry := by
  obtain ⟨k, positive, minors⟩ := det_multiplied rows results multiples
  refine ⟨k, positive, ?_⟩
  rw [Path.tangent, Path.tangent, ← multiples.length_eq, List.map_map]
  refine List.map_congr_left fun column _ => ?_
  rw [minors, Function.comp_apply]
  ring

/-! A direction on the same ray. -/

theorem fall_multiplied (k : ℝ) (direction : List ℝ) :
    Path.fallOfLambda (direction.map fun entry => k * entry) = k * Path.fallOfLambda direction := by
  rw [Path.fallOfLambda, Path.fallOfLambda, List.getLastD_eq_getLast?, List.getLastD_eq_getLast?, List.getLast?_map]
  cases direction.getLast? with
  | none => simp
  | some last => exact (mul_neg k last).symm

theorem heading_multiplied (k : ℝ) (path : Path ℝ) (change : Restructure) (direction : List ℝ) :
    path.heading change (direction.map fun entry => k * entry) =
      (path.heading change direction).map fun rate => k * rate := by
  cases change with
  | start => exact congrArg Except.ok (fall_multiplied k direction)
  | merged player upper =>
      rw [Path.heading, Path.heading, bind_map]
      refine bind_congr fun own => ?_
      rw [map_m_map upper (fun strategy => entry direction (own + strategy)) _ (fun rate => k * rate) fun strategy _ =>
        entry_map _ direction (own + strategy)]
      cases upper.mapM fun strategy => entry direction (own + strategy) with
      | error fault => rfl
      | ok rates =>
          refine congrArg Except.ok ?_
          rw [sum_eq, sum_eq, List.sum_map_mul_left, List.map_id']
          exact (mul_neg k rates.sum).symm
  | parted player upper lower =>
      have terms (opponent : Nat) : path.gapTerms player upper lower (direction.map fun entry => k * entry) opponent =
          (path.gapTerms player upper lower direction opponent).map (List.map fun term => k * term) := by
        rw [Path.gapTerms, Path.gapTerms, bind_map]
        refine bind_congr fun place => ?_
        refine map_m_map _ _ _ _ fun strategy _ => ?_
        rw [bind_map]
        refine bind_congr fun upperRate => ?_
        rw [bind_map]
        refine bind_congr fun lowerRate => ?_
        rw [entry_map]
        cases entry direction (place + strategy) with
        | error fault => rfl
        | ok rate => exact congrArg Except.ok (mul_left_comm _ k rate)
      rw [Path.heading, Path.heading, map_m_map _ _ _ _ fun opponent _ => terms opponent]
      cases ((List.range path.profile.players).filter fun opponent => opponent != player).mapM
          (path.gapTerms player upper lower direction) with
      | error fault => rfl
      | ok terms =>
          refine congrArg Except.ok ?_
          rw [sum_eq, sum_eq, ← List.map_flatten, List.sum_map_mul_left, List.map_id']

theorem length_multiplied (k : ℝ) (positive : 0 < k) (direction : List ℝ) :
    Path.length (direction.map fun entry => k * entry) = k * Path.length direction := by
  have squares : (direction.map fun entry => k * entry).map (fun t => t * t) =
      direction.map fun entry => (k * k) * (entry * entry) := by
    rw [List.map_map]
    exact List.map_congr_left fun entry _ => mul_mul_mul_comm k entry k entry
  have root : Real.sqrt (k * k * (direction.map fun entry => entry * entry).sum) =
      k * Real.sqrt (direction.map fun entry => entry * entry).sum := by
    rw [Real.sqrt_mul (mul_self_nonneg k), Real.sqrt_mul_self positive.le]
  rw [Path.length, Path.length, squares, sum_eq, sum_eq, List.sum_map_mul_left]
  exact root

-- Of the direction a step takes the ray only.
theorem proceed_multiplied (k : ℝ) (positive : 0 < k) (path : Path ℝ) (direction : List ℝ) (events : List (Event ℝ))
    (step : Nat) (config : Config ℝ) :
    path.proceed (direction.map fun entry => k * entry) events step config =
      path.proceed direction events step config := by
  have same : Path.hasLength (k * Path.length direction) = Path.hasLength (Path.length direction) := by
    simp [Path.hasLength, Arithmetic.isFinite, positive]
  have moved : path.move (direction.map fun entry => k * entry) config.stepSize (k * Path.length direction) =
      path.move direction config.stepSize (Path.length direction) := by
    have scaled (entry : ℝ) : k * entry * (config.stepSize / (k * Path.length direction)) =
        entry * (config.stepSize / Path.length direction) := by
      rw [← mul_div_assoc, mul_assoc, mul_div_mul_left _ _ positive.ne', mul_div_assoc]
    rw [Path.move, Path.move, List.length_map, ← List.map_take, List.map_map, entry_map]
    simp only [Function.comp_def, scaled]
    refine bind_congr fun profile => ?_
    cases entry direction (direction.length - 1) with
    | error fault => rfl
    | ok rate => simp only [Except.map, ok_bind, scaled]
  rw [Path.proceed, Path.proceed, length_multiplied k positive]
  simp only [same, moved]

end Exact

-- The second table pays what the first pays times a constant, and so does its largest payoff.
structure PayoffTable.Multiplies (c : ℝ) (one other : PayoffTable ℝ) : Prop where
  payoffs : one.Rescales (fun payoff => c * payoff) other
  scale : max other.scale 1 = c * max one.scale 1

namespace Path

-- Up to this size a heading counts as none.
noncomputable def threshold (path : Path ℝ) (direction : List ℝ) : ℝ :=
  headingTolerance * (Arithmetic.largest (direction.map Arithmetic.abs) * max path.table.scale 1)

-- Whether the walk turns around.
def Reverses (path : Path ℝ) (rate : ℝ) (direction : List ℝ) : Prop :=
  (if |rate| ≤ path.threshold direction then fallOfLambda direction else rate) < 0

noncomputable instance (path : Path ℝ) (rate : ℝ) (direction : List ℝ) : Decidable (path.Reverses rate direction) :=
  inferInstanceAs (Decidable (_ < _))

theorem orient_pending (path : Path ℝ) (direction : List ℝ) (change : Restructure)
    (pending : path.pending = some change) :
    path.orient direction = path.heading change direction >>= fun rate =>
      if path.Reverses rate direction then
        .ok ⟨{ path with pending := none, orientation := -path.orientation }, direction.map (- ·), some change⟩
      else .ok ⟨{ path with pending := none }, direction, none⟩ := by
  rw [orient, pending]
  refine bind_congr fun rate => ?_
  simp only [Reverses, threshold, Exact.max_eq, Exact.le_eq, Exact.lt_eq, Exact.one_eq, Exact.zero_eq,
    decide_eq_true_eq]
  rfl

-- A pending merge is settled alike in both units: its heading counts in both or in neither, or turns
-- the walk as lambda does.
def TurnsAlike (c : ℝ) (path : Path ℝ) (direction : List ℝ) : Prop :=
  ∀ player upper rate, path.pending = some (.merged player upper) →
    path.heading (.merged player upper) direction = .ok rate →
      |rate| ≤ path.threshold direction ∨ c * path.threshold direction < |rate| ∨
        (rate < 0 ↔ fallOfLambda direction < 0)

theorem threshold_multiplied (c k : ℝ) (positive : 0 < k) (path : Path ℝ) (other : PayoffTable ℝ)
    (multiplies : path.table.Multiplies c other) (direction : List ℝ) :
    (path.withTable other).threshold (direction.map fun entry => k * entry) = k * (c * path.threshold direction) := by
  have sizes : (direction.map fun entry => k * entry).map Arithmetic.abs =
      (direction.map Arithmetic.abs).map fun size => k * size := by
    rw [List.map_map, List.map_map]
    refine List.map_congr_left fun entry _ => ?_
    exact (abs_mul k entry).trans (congrArg (fun size => size * |entry|) (abs_of_pos positive))
  have table : (path.withTable other).table = other := rfl
  rw [threshold, threshold, sizes, Exact.largest_multiplied k positive, table, multiplies.scale]
  ring

theorem threshold_nonneg (path : Path ℝ) (direction : List ℝ) : 0 ≤ path.threshold direction := by
  have tolerance : (0 : ℝ) ≤ headingTolerance := by
    have small : (headingTolerance : ℝ) = ((1 / 1000000000 : Rat) : ℝ) := rfl
    rw [small]
    positivity
  have largest : 0 ≤ Arithmetic.largest (direction.map Arithmetic.abs) :=
    ((Exact.largest_le_iff (direction.map Arithmetic.abs) _).mp le_rfl).1
  exact mul_nonneg tolerance (mul_nonneg largest (le_max_of_le_right zero_le_one))

theorem multiple_negative (k rate : ℝ) (positive : 0 < k) : k * rate < 0 ↔ rate < 0 :=
  smul_neg_iff_of_pos_left positive

-- The first heading counts if the second does, and turns the walk alike.
theorem reverses_scaled (path other : Path ℝ) (rate : ℝ) (direction results : List ℝ) (m k : ℝ) (ratio : 0 < m)
    (positive : 0 < k) (fall : fallOfLambda results = k * fallOfLambda direction)
    (counts : |m * rate| ≤ other.threshold results ↔ |rate| ≤ path.threshold direction) :
    other.Reverses (m * rate) results ↔ path.Reverses rate direction := by
  rw [Reverses, Reverses, fall]
  by_cases small : |rate| ≤ path.threshold direction
  · rw [if_pos small, if_pos (counts.mpr small), multiple_negative k _ positive]
  · rw [if_neg small, if_neg (mt counts.mp small), multiple_negative m _ ratio]

-- Neither heading depends on whether it counts if both go with lambda.
theorem reverses_like_lambda (path other : Path ℝ) (rate : ℝ) (direction results : List ℝ) (k : ℝ) (positive : 0 < k)
    (fall : fallOfLambda results = k * fallOfLambda direction) (like : rate < 0 ↔ fallOfLambda direction < 0) :
    other.Reverses (k * rate) results ↔ path.Reverses rate direction := by
  have first : path.Reverses rate direction ↔ rate < 0 := by
    rw [Reverses]
    split
    · exact like.symm
    · rfl
  have second : other.Reverses (k * rate) results ↔ rate < 0 := by
    rw [Reverses]
    split
    · rw [fall, multiple_negative k _ positive, like]
    · exact multiple_negative k _ positive
  rw [first, second]

theorem reverses_multiplied (c k : ℝ) (large : 1 ≤ c) (positive : 0 < k) (path : Path ℝ) (other : PayoffTable ℝ)
    (multiplies : path.table.Multiplies c other) (direction : List ℝ) (change : Restructure) (rate : ℝ)
    (pending : path.pending = some change) (read : path.heading change direction = .ok rate)
    (alike : path.TurnsAlike c direction) :
    (path.withTable other).Reverses (change.inUnit (fun payoff => c * payoff) (k * rate))
        (direction.map fun entry => k * entry) ↔
      path.Reverses rate direction := by
  have unit : 0 < c := zero_lt_one.trans_le large
  have fall := Exact.fall_multiplied k direction
  have least := threshold_nonneg path direction
  cases change with
  | start =>
      cases read
      exact reverses_like_lambda path _ _ direction _ k positive fall Iff.rfl
  | parted player upper lower =>
      have both : (Restructure.parted player upper lower).inUnit (fun payoff => c * payoff) (k * rate) =
          k * c * rate := by
        rw [Restructure.inUnit]
        ring
      rw [both]
      refine reverses_scaled path _ rate direction _ (k * c) k (mul_pos positive unit) positive fall ?_
      rw [threshold_multiplied c k positive path other multiplies, abs_mul, abs_of_pos (mul_pos positive unit),
        ← mul_assoc, mul_le_mul_iff_right₀ (mul_pos positive unit)]
  | merged player upper =>
      rcases alike player upper rate pending read with small | above | like
      · refine reverses_scaled path _ rate direction _ k k positive positive fall ⟨fun _ => small, fun _ => ?_⟩
        rw [threshold_multiplied c k positive path other multiplies, abs_mul, abs_of_pos positive]
        exact mul_le_mul_of_nonneg_left (small.trans (le_mul_of_one_le_left least large)) positive.le
      · have larger : path.threshold direction < |rate| := (le_mul_of_one_le_left least large).trans_lt above
        refine reverses_scaled path _ rate direction _ k k positive positive fall
          ⟨fun counts => ?_, fun counts => absurd counts (not_le.mpr larger)⟩
        rw [threshold_multiplied c k positive path other multiplies, abs_mul, abs_of_pos positive,
          mul_le_mul_iff_right₀ positive] at counts
        exact absurd counts (not_le.mpr above)
      · exact reverses_like_lambda path _ rate direction _ k positive fall like

theorem orient_multiplied (c k : ℝ) (large : 1 ≤ c) (positive : 0 < k) (path : Path ℝ) (other : PayoffTable ℝ)
    (multiplies : path.table.Multiplies c other) (direction : List ℝ) (alike : path.TurnsAlike c direction)
    (oriented : Oriented ℝ) (settled : path.orient direction = .ok oriented) :
    (path.withTable other).orient (direction.map fun entry => k * entry) =
      .ok { oriented.withTable other with direction := oriented.direction.map fun entry => k * entry } := by
  have rescaling := Exact.multiplication_rescales c (zero_lt_one.trans_le large)
  cases pending : path.pending with
  | none =>
      have pendingOver : (path.withTable other).pending = none := pending
      rw [orient, pending] at settled
      rw [orient, pendingOver]
      cases settled
      rfl
  | some change =>
      rw [orient_pending path direction change pending] at settled
      obtain ⟨rate, read, settled⟩ := bind_eq_ok.mp settled
      have reverses := reverses_multiplied c k large positive path other multiplies direction change rate pending read
        alike
      rw [orient_pending (path.withTable other) _ change pending,
        heading_over _ rescaling path other multiplies.payoffs,
        Exact.heading_multiplied, read]
      simp only [Except.map, ok_bind, reverses]
      split at settled
      · rename_i turns
        cases settled
        have negated : (direction.map fun entry => k * entry).map (- ·) =
            (direction.map (- ·)).map fun entry => k * entry := by
          rw [List.map_map, List.map_map]
          exact List.map_congr_left fun entry _ => (mul_neg k entry).symm
        rw [if_pos turns, negated]
        rfl
      · rename_i keeps
        cases settled
        rw [if_neg keeps]
        rfl

-- The direction of the next step is settled alike in both units.
def TurnsNextAlike (c : ℝ) (path : Path ℝ) : Prop :=
  ∀ rows, path.jacobian = .ok rows → path.TurnsAlike c (tangent path.orientation rows)

theorem advance_multiplied (c : ℝ) (large : 1 ≤ c) (path : Path ℝ) (valid : path.Valid) (other : PayoffTable ℝ)
    (multiplies : path.table.Multiplies c other) (alike : path.TurnsNextAlike c) (step : Nat) (config : Config ℝ) :
    (path.withTable other).advance step config =
      (path.advance step config).map fun attempt => attempt.withTable other := by
  have unit : 0 < c := zero_lt_one.trans_le large
  have rescaling := Exact.multiplication_rescales c unit
  obtain ⟨rows, oriented, built, settled, -, place, -⟩ := turn_succeeds path valid
  obtain ⟨results, builtOver, each⟩ := jacobian_over _ rescaling path other multiplies.payoffs rows built
  obtain ⟨k, positive, tangents⟩ := Exact.tangent_multiplied path.orientation rows results
    (each.imp (Exact.multiple_of_rescaled c unit))
  have settledOver := orient_multiplied c k large positive path other multiplies _ (alike rows built) oriented settled
  rw [← tangents] at settledOver
  have table : oriented.path.table = path.table := congrArg Mixed.table place.profile
  rw [advance_proceeds path step config rows oriented built settled,
    advance_proceeds (path.withTable other) step config results _ builtOver settledOver,
    Exact.proceed_multiplied k positive]
  exact proceed_over _ rescaling other oriented.path (table ▸ multiplies.payoffs) _ _ step config

end Path

end NormalForm
