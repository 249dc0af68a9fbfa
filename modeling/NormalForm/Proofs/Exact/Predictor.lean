import NormalForm.Proofs.Exact.Kernel
import NormalForm.Proofs.Exact.Mass
import NormalForm.Proofs.Path.Feasible
import NormalForm.Proofs.Path.Turning

/-!
What a step adds to profile and lambda, in exact arithmetic: a vector that the matrix takes to zero, as long
as the step size. There is none just where the matrix has less than full rank.
-/

set_option autoImplicit false

namespace NormalForm

namespace Path

-- Profile and lambda in one vector.
def point (path : Path ℝ) : List ℝ := path.profile.probabilities ++ [path.lambda]

noncomputable def displacement (before after : Path ℝ) (column : Nat) : ℝ :=
  after.point.getD column 0 - before.point.getD column 0

-- The walk goes one way along its path or the other.
def Faces (path : Path ℝ) : Prop := path.orientation = 1 ∨ path.orientation = -1

-- The states that a start and steps can lead to, those of steps that failed among them.
inductive Walked (table : PayoffTable ℝ) : Path ℝ → Prop where
  | start (config : Config ℝ) (path : Path ℝ) (begun : Path.start table config = .ok (.ok path)) : Walked table path
  | advance (path : Path ℝ) (step : Nat) (config : Config ℝ) (attempt : Attempt ℝ) (before : Walked table path)
      (advanced : path.advance step config = .ok attempt) : Walked table attempt.path

/-! The two ways. -/

theorem faces_neg (path : Path ℝ) (faces : path.Faces) : -path.orientation = 1 ∨ -path.orientation = -1 := by
  rcases faces with one | other
  · exact .inr (by rw [one])
  · exact .inl (by rw [other, neg_neg])

theorem faces_nonzero (path : Path ℝ) (faces : path.Faces) : path.orientation ≠ 0 := by
  rcases faces with one | other
  · exact one ▸ one_ne_zero
  · exact other ▸ neg_ne_zero.mpr one_ne_zero

theorem faces_of_turns (before after : Path ℝ) (events : List (Event ℝ)) (turns : Turns before after events)
    (faces : before.Faces) : after.Faces := by
  have each (count : Nat) : (fun bearing => -bearing)^[count] before.orientation = 1 ∨
      (fun bearing => -bearing)^[count] before.orientation = -1 := by
    induction count with
    | zero => exact faces
    | succ count ih =>
        rw [Function.iterate_succ_apply']
        exact faces_neg { before with orientation := _ } ih
  rw [Faces, turns.orientation]
  exact each _

theorem orient_faces (path : Path ℝ) (direction : List ℝ) (oriented : Oriented ℝ) (faces : path.Faces)
    (run : path.orient direction = .ok oriented) : oriented.path.Faces := by
  rcases orient_cases path direction oriented run with ⟨same, -⟩ | ⟨turned, -⟩
  · exact same ▸ faces
  · exact turned ▸ faces_neg path faces

theorem start_faces (table : PayoffTable ℝ) (config : Config ℝ) (path : Path ℝ)
    (begun : start table config = .ok (.ok path)) : path.Faces := by
  obtain ⟨rankings, -, rfl⟩ := start_state table config path begun
  exact .inl Exact.one_eq

theorem walked_valid (table : PayoffTable ℝ) (complete : table.Complete) (words : ∀ d ∈ table.dims, d < Word.size)
    (path : Path ℝ) (walked : Walked table path) : path.Valid ∧ path.Faces ∧ path.table = table := by
  induction walked with
  | start config path begun =>
      obtain ⟨outcome, same, begins⟩ := Path.start_succeeds table complete words config
      have first := begins path (Except.ok.inj (same.symm.trans begun))
      exact ⟨first.valid, start_faces table config path begun, congrArg Mixed.table first.profile⟩
  | advance path step config attempt _ advanced ih =>
      obtain ⟨valid, faces, table⟩ := ih
      obtain ⟨same, sameRun, sameValid, displaced⟩ := path.advance_succeeds valid step config
      cases advanced.symm.trans sameRun
      obtain ⟨rows, oriented, built, settled, -⟩ := turn_succeeds path valid
      rw [advance_proceeds path step config rows oriented built settled] at advanced
      obtain ⟨repairs, turns⟩ := proceed_turns _ _ _ _ _ _ advanced
      exact ⟨sameValid, faces_of_turns _ _ repairs turns (orient_faces path _ oriented faces settled),
        (displaced_table path _ displaced).trans table⟩

/-! Lengths. -/

theorem length_squared (direction : List ℝ) : Path.length direction ^ 2 =
    ∑ column ∈ Finset.range direction.length, direction.getD column 0 ^ 2 := by
  have squares : (direction.map fun t => t * t).sum =
      ∑ column ∈ Finset.range direction.length, direction.getD column 0 ^ 2 := by
    rw [← Fin.sum_univ_fun_getElem, Finset.sum_range]
    refine Finset.sum_congr rfl fun column _ => ?_
    rw [List.getD_eq_getElem direction 0 column.isLt, pow_two]
  have nonneg : 0 ≤ (direction.map fun t => t * t).sum := by
    rw [squares]
    exact Finset.sum_nonneg fun column _ => sq_nonneg _
  rw [← squares, Path.length, Exact.sum_eq]
  exact Real.sq_sqrt nonneg

theorem length_of_sign (direction other : List ℝ) (same : SameUpToSign direction other) :
    Path.length other = Path.length direction := by
  rcases same with rfl | rfl
  · rfl
  · simp only [Path.length, List.map_map, Function.comp_def, neg_mul_neg]

theorem has_length_positive (size : ℝ) (long : hasLength size = true) : 0 < size := by
  simpa [hasLength, Arithmetic.isFinite] using long

theorem has_length_iff (direction : List ℝ) :
    hasLength (Path.length direction) = true ↔ ∃ column < direction.length, direction.getD column 0 ≠ 0 := by
  have positive : hasLength (Path.length direction) = true ↔ 0 < Path.length direction := by
    simp [hasLength, Arithmetic.isFinite]
  have nonneg : 0 ≤ Path.length direction := Real.sqrt_nonneg _
  have zero : Path.length direction = 0 ↔ ∀ column ∈ Finset.range direction.length, direction.getD column 0 = 0 := by
    rw [← sq_eq_zero_iff, length_squared, Finset.sum_eq_zero_iff_of_nonneg fun column _ => sq_nonneg _]
    simp only [sq_eq_zero_iff]
  rw [positive, lt_iff_le_and_ne, and_iff_right nonneg, ne_comm, ne_eq, zero]
  simp

/-! Displacements. -/

theorem point_of_place (path other : Path ℝ) (profile : other.profile = path.profile)
    (lambda : other.lambda = path.lambda) :
    other.point = path.point := by
  rw [point, point, profile, lambda]

theorem moved_displacement (path : Path ℝ) (valid : path.Valid) (direction : List ℝ)
    (length : direction.length = path.table.dims.total + 1) (scale rate : ℝ)
    (last : direction[path.table.dims.total]? = some rate) (column : Nat) (inside : column ≤ path.table.dims.total) :
    displacement path
      { path with
        profile :=
          { path.profile with
            probabilities := List.zipWith (· + ·) path.profile.probabilities
              ((direction.take path.table.dims.total).map fun t => t * scale) }
        lambda := path.lambda + rate * scale } column = direction.getD column 0 * scale := by
  have before : path.profile.probabilities.length = path.table.dims.total := valid.profile.length
  have after : (List.zipWith (· + ·) path.profile.probabilities
      ((direction.take path.table.dims.total).map fun t => t * scale)).length = path.table.dims.total := by
    rw [List.length_zipWith, steps_length direction scale _ length, before]
    exact Nat.min_self _
  rw [displacement, point, point]
  dsimp only
  rcases Nat.lt_or_eq_of_le inside with strategy | rfl
  · have moved := Exact.moved_entry path.profile.probabilities direction scale _ column (before.symm ▸ strategy) strategy
      (length.symm ▸ Nat.lt_succ_of_lt strategy)
    rw [List.getD_append _ _ _ _ (after.symm ▸ strategy), List.getD_append _ _ _ _ (before.symm ▸ strategy), moved,
      add_sub_cancel_left]
  · have own : direction.getD path.table.dims.total 0 = rate := by
      rw [List.getD_eq_getElem?_getD, last, Option.getD_some]
    rw [List.getD_append_right _ _ _ _ (Nat.le_of_eq after), List.getD_append_right _ _ _ _ (Nat.le_of_eq before),
      after, before, Nat.sub_self, List.getD_cons_zero, List.getD_cons_zero, own, add_sub_cancel_left]

-- Either there is no way to go, or the step goes its way along the direction, whether or not it is feasible.
theorem proceed_displaces (path : Path ℝ) (valid : path.Valid) (direction : List ℝ)
    (length : direction.length = path.table.dims.total + 1) (events : List (Event ℝ)) (step : Nat) (config : Config ℝ)
    (attempt : Attempt ℝ) (run : path.proceed direction events step config = .ok attempt) :
    if hasLength (Path.length direction) then
      (∀ n lambda, attempt.failure ≠ some (.degenerate n lambda)) ∧
        ∀ column ≤ path.table.dims.total, displacement path attempt.path column =
          direction.getD column 0 * (config.stepSize / Path.length direction)
    else attempt.failure = some (.degenerate step path.lambda) := by
  rw [proceed] at run
  dsimp only at run
  split at run
  · rename_i long
    rw [if_pos long]
    obtain ⟨rate, last, moves⟩ := move_succeeds path valid direction config.stepSize (Path.length direction) length
    have displaced := moved_displacement path valid direction length (config.stepSize / Path.length direction) rate last
    rw [moves, ok_bind] at run
    split at run
    · rename_i failure infeasible
      cases run
      refine ⟨?_, displaced⟩
      rw [infeasible?] at infeasible
      split at infeasible
      · cases infeasible
        intro n lambda same
        cases same
      · cases infeasible
    · obtain ⟨⟨repaired, repairs⟩, repairing, run⟩ := bind_eq_ok.mp run
      cases run
      refine ⟨fun n lambda => (Option.some_ne_none _).symm, fun column inside => ?_⟩
      obtain ⟨profile, lambda⟩ := repair_all_stays _ step _ _ repairing
      rw [displacement, point_of_place _ _ profile lambda]
      exact displaced column inside
  · rename_i short
    cases run
    rw [if_neg short]

-- The step size sets the length, and the tangent the line, since turning around changes neither.
theorem advance_follows_kernel (path : Path ℝ) (valid : path.Valid) (faces : path.Faces) (step : Nat)
    (config : Config ℝ) : ∃ rows attempt, path.jacobian = .ok rows ∧ path.advance step config = .ok attempt ∧
      (attempt.failure = some (.degenerate step path.lambda) ↔
        (matrixOf rows path.table.dims.total (path.table.dims.total + 1)).rank < path.table.dims.total) ∧
      ((matrixOf rows path.table.dims.total (path.table.dims.total + 1)).rank = path.table.dims.total →
        (matrixOf rows path.table.dims.total (path.table.dims.total + 1)).mulVec
            (fun column => displacement path attempt.path column) = 0 ∧
          ∑ column ∈ Finset.range (path.table.dims.total + 1), displacement path attempt.path column ^ 2 =
            config.stepSize ^ 2) := by
  obtain ⟨rows, ⟨oriented, direction, turned⟩, built, settled, orientedValid, place, sign, length⟩ :=
    turn_succeeds path valid
  have height := jacobian_height path rows built
  obtain ⟨attempt, advanced, -⟩ := advance_succeeds path valid step config
  have table : oriented.table = path.table := congrArg Mixed.table place.profile
  have lambda : oriented.lambda = path.lambda := place.lambda
  have bearing := faces_nonzero path faces
  have size := length_of_sign _ direction sign
  have moves := proceed_displaces oriented orientedValid direction length _ step config attempt
    ((advance_proceeds path step config rows _ built settled).symm.trans advanced)
  simp only [displacement, point_of_place path oriented place.profile lambda, lambda, table, size] at moves
  have full : hasLength (Path.length (tangent path.orientation rows)) = true ↔
      ¬ (matrixOf rows path.table.dims.total (path.table.dims.total + 1)).rank < path.table.dims.total := by
    rw [has_length_iff, tangent_length, ← height, ← Exact.tangent_zero_iff path.orientation bearing rows,
      Fin.forall_iff, not_forall]
    simp only [not_forall, exists_prop]
  refine ⟨rows, attempt, built, advanced, ?_, ?_⟩
  · by_cases long : hasLength (Path.length (tangent path.orientation rows)) = true
    · rw [if_pos long] at moves
      exact iff_of_false (moves.1 _ _) (full.mp long)
    · rw [if_neg long] at moves
      exact iff_of_true moves (not_not.mp (mt full.mpr long))
  · intro rank
    have long := full.mpr (Nat.not_lt.mpr rank.ge)
    rw [if_pos long] at moves
    obtain ⟨-, moved⟩ := moves
    obtain ⟨factor, scaled⟩ := Exact.sign_of_direction _ direction sign
    constructor
    · have entries : (fun column : Fin (path.table.dims.total + 1) => displacement path attempt.path column) =
          (factor * (config.stepSize / Path.length (tangent path.orientation rows))) •
            fun column : Fin (path.table.dims.total + 1) => (tangent path.orientation rows).getD column 0 := by
        funext column
        have here := moved column (Nat.le_of_lt_succ column.isLt)
        rw [scaled] at here
        rw [displacement, here, Pi.smul_apply, smul_eq_mul]
        ring
      have kernel := Exact.tangent_in_kernel path.orientation rows
      rw [height] at kernel
      rw [entries, Matrix.mulVec_smul, kernel, smul_zero]
    · have squares := length_squared direction
      rw [length, table, size] at squares
      have entries : ∀ column ∈ Finset.range (path.table.dims.total + 1), displacement path attempt.path column ^ 2 =
          (config.stepSize / Path.length (tangent path.orientation rows)) ^ 2 * direction.getD column 0 ^ 2 := by
        intro column listed
        rw [displacement, moved column (Nat.le_of_lt_succ (Finset.mem_range.mp listed)), mul_pow, mul_comm]
      rw [Finset.sum_congr rfl entries, ← Finset.mul_sum, ← squares, ← mul_pow,
        div_mul_cancel₀ _ (has_length_positive _ long).ne']

theorem tangent_vanishes_iff (orientation : ℝ) (bearing : orientation ≠ 0) (rows : List (List ℝ)) :
    (∀ t ∈ tangent orientation rows, t = 0) ↔
      (matrixOf rows rows.length (rows.length + 1)).rank < rows.length := by
  have size : (tangent orientation rows).length = rows.length + 1 := tangent_length orientation rows
  rw [← Exact.tangent_zero_iff orientation bearing rows, List.forall_mem_iff_getElem]
  constructor
  · intro zero column
    have inside : (column : Nat) < (tangent orientation rows).length := Nat.lt_of_lt_of_eq column.isLt size.symm
    exact (List.getD_eq_getElem _ 0 inside).trans (zero column inside)
  · intro zero column inside
    exact (List.getD_eq_getElem _ 0 inside).symm.trans (zero ⟨column, size ▸ inside⟩)

-- The direction of every matrix with one column more than rows, the steps of every path, and the states to
-- which they lead.
theorem predictor_is_a_null_vector :
    (∀ (K : Nat) (rows : List (List ℝ)) (orientation : ℝ), rows.length = K → orientation = 1 ∨ orientation = -1 →
      (matrixOf rows K (K + 1)).mulVec (fun column => (tangent orientation rows).getD column 0) = 0 ∧
      ((∀ t ∈ tangent orientation rows, t = 0) ↔ (matrixOf rows K (K + 1)).rank < K)) ∧
    (∀ path : Path ℝ, path.Valid → path.Faces → ∀ (step : Nat) (config : Config ℝ), ∃ rows attempt,
      path.jacobian = .ok rows ∧ path.advance step config = .ok attempt ∧
      (attempt.failure = some (.degenerate step path.lambda) ↔
        (matrixOf rows path.table.dims.total (path.table.dims.total + 1)).rank < path.table.dims.total) ∧
      ((matrixOf rows path.table.dims.total (path.table.dims.total + 1)).rank = path.table.dims.total →
        (matrixOf rows path.table.dims.total (path.table.dims.total + 1)).mulVec
            (fun column => displacement path attempt.path column) = 0 ∧
          ∑ column ∈ Finset.range (path.table.dims.total + 1), displacement path attempt.path column ^ 2 =
            config.stepSize ^ 2)) ∧
    ∀ (game : Game) (path : Path ℝ), game.Reachable → Walked (.ofGame game) path →
      path.Valid ∧ path.Faces ∧ path.table = .ofGame game := by
  refine ⟨?_, advance_follows_kernel, ?_⟩
  · rintro K rows orientation rfl bearing
    have nonzero : orientation ≠ 0 := by
      rcases bearing with rfl | rfl
      · exact one_ne_zero
      · exact neg_ne_zero.mpr one_ne_zero
    exact ⟨Exact.tangent_in_kernel orientation rows, tangent_vanishes_iff orientation nonzero rows⟩
  · intro game path reachable walked
    have valid := Game.reachable_well_formed game reachable
    exact walked_valid _ (PayoffTable.of_game_complete game valid)
      (Dimensions.words_of_count game.dimensions valid.addressable) path walked

theorem predictor_is_a_null_vector_choice :
    (matrixOf [[1, 2]] 1 2).mulVec (fun column => (tangent (-1) [[1, 2]]).getD column 0) = 0 ∧
    ∃ game, (Game.blank [2]).performAll
        [.newOutcome ⟨1⟩, .setPayoff ⟨1⟩ 0 1, .setOutcome [0] (some ⟨1⟩)] = .ok game ∧
      ∃ (path : Path ℝ) (rows : List (List ℝ)) (attempt : Attempt ℝ), Walked (.ofGame game) path ∧
        path.jacobian = .ok rows ∧ path.advance 1 ⟨1, 0, 1, 0, 0, 0⟩ = .ok attempt ∧
        (attempt.failure = some (.degenerate 1 path.lambda) ↔ (matrixOf rows 2 3).rank < 2) ∧
        ((matrixOf rows 2 3).rank = 2 →
          ∑ column ∈ Finset.range 3, displacement path attempt.path column ^ 2 = 1) := by
  obtain ⟨game, made, dims, first, second⟩ := lone_player_game
  obtain ⟨path, begun, -⟩ := lone_player_starts _ ⟨1, 0, 1, 0, 0, 0⟩ dims first second rfl
  have walked : Walked (.ofGame game) path := .start _ path begun
  obtain ⟨matrices, steps, states⟩ := predictor_is_a_null_vector
  obtain ⟨valid, faces, table⟩ := states game path ⟨[2], _, _, rfl, made⟩ walked
  obtain ⟨rows, attempt, built, advanced, degenerate, displaced⟩ := steps path valid faces 1 ⟨1, 0, 1, 0, 0, 0⟩
  have total : path.table.dims.total = 2 := by
    rw [table]
    exact congrArg Dimensions.total dims
  rw [total] at degenerate displaced
  refine ⟨(matrices 1 [[1, 2]] (-1) rfl (.inr rfl)).1, game, made, path, rows, attempt, walked, built, advanced,
    degenerate, fun rank => ?_⟩
  rw [(displaced rank).2]
  norm_num

end Path

end NormalForm
