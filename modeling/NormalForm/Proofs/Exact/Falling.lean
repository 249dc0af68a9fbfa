import NormalForm.Proofs.Exact.Heading
import NormalForm.Proofs.Exact.Strict
import NormalForm.Proofs.Solver.Ledger

/-!
The walk before the first merge, in exact arithmetic. Strategies are ranked strictly as they were at the start,
where the walk is set to let lambda fall; the last entry of its direction then keeps its sign, so that every step
is taken and brings lambda down.
-/

set_option autoImplicit false

namespace NormalForm

namespace Path

-- The next direction is still to be set, or lambda falls along it.
def Falls (path : Path ℝ) : Prop :=
  path.pending = some .start ∨
    path.pending = none ∧ (0 < path.lambda → ∀ rows, path.jacobian = .ok rows →
      (tangent path.orientation rows).getD path.table.dims.total 0 < 0)

theorem orient_falls (path : Path ℝ) (valid : path.Valid) (faces : path.Faces) (strict : path.Strict)
    (above : 0 < path.lambda) (falls : path.Falls) (rows : List (List ℝ)) (built : path.jacobian = .ok rows)
    (oriented : Oriented ℝ) (settled : path.orient (tangent path.orientation rows) = .ok oriented) :
    oriented.path.pending = none ∧ oriented.direction.getD path.table.dims.total 0 < 0 := by
  rcases falls with start | ⟨none, down⟩
  · obtain ⟨-, tangents⟩ := orient_bearing path rows oriented settled
    have turned := faces_nonzero _ (orient_faces path _ oriented faces settled)
    have nonzero := strict_last_nonzero path valid strict above rows built _ turned
    have length : oriented.direction.length = path.table.dims.total + 1 := by
      rw [tangents, tangent_length, jacobian_height path rows built]
    obtain ⟨rate, read, heads⟩ := orient_heads path .start start _ _ rfl oriented settled
    cases read
    have fall : 0 ≤ fallOfLambda oriented.direction := by
      split at heads
      · exact heads.le
      · exact heads
    rw [fall_eq _ _ length, Left.nonneg_neg_iff] at fall
    rw [← tangents] at nonzero
    refine ⟨?_, fall.lt_of_ne nonzero⟩
    rcases orient_cases path _ oriented settled with ⟨same, -⟩ | ⟨same, -⟩
    · rw [same]
    · rw [same]
  · rw [orient, none] at settled
    cases settled
    exact ⟨none, down above rows built⟩

theorem point_last (path : Path ℝ) (valid : path.Valid) : path.point.getD path.table.dims.total 0 = path.lambda := by
  have entries : path.profile.probabilities.length = path.table.dims.total := valid.profile.length
  rw [point, List.getD_append_right _ _ _ _ (Nat.le_of_eq entries), entries, Nat.sub_self, List.getD_cons_zero]

-- While the counters stand, so do the rankings and the orientation, and with them the sign of the last entry.
theorem strict_step_falls (path : Path ℝ) (valid : path.Valid) (faces : path.Faces) (strict : path.Strict)
    (above : 0 < path.lambda) (falls : path.Falls) (step : Nat) (config : Config ℝ) (positive : 0 < config.stepSize) :
    ∃ attempt, path.advance step config = .ok attempt ∧ (∀ n lambda, attempt.failure ≠ some (.degenerate n lambda)) ∧
      attempt.path.lambda < path.lambda ∧
      (attempt.path.changes ≤ path.changes → attempt.path.Falls) := by
  obtain ⟨rows, oriented, built, settled, orientedValid, place, -, length⟩ := turn_succeeds path valid
  obtain ⟨attempt, advanced, attemptValid, displaced⟩ := advance_succeeds path valid step config
  have table : oriented.path.table = path.table := congrArg Mixed.table place.profile
  have attemptTable : attempt.path.table = path.table := displaced_table path _ displaced
  obtain ⟨pending, down⟩ := orient_falls path valid faces strict above falls rows built oriented settled
  obtain ⟨-, tangents⟩ := orient_bearing path rows oriented settled
  obtain ⟨-, counted⟩ := orient_counts path _ oriented settled
  have proceeds := (advance_proceeds path step config rows oriented built settled).symm.trans advanced
  have long : hasLength (Path.length oriented.direction) = true := by
    rw [has_length_iff, length, table]
    exact ⟨_, Nat.lt_succ_self _, down.ne⟩
  have moves := proceed_displaces oriented.path orientedValid _ length _ step config attempt proceeds
  rw [if_pos long] at moves
  obtain ⟨goes, moved⟩ := moves
  refine ⟨attempt, advanced, goes, ?_, ?_⟩
  · have lowered := moved _ le_rfl
    have last := point_last attempt.path attemptValid
    rw [displacement, point_last oriented.path orientedValid, table, ← attemptTable, last, attemptTable,
      place.lambda] at lowered
    have pace : 0 < config.stepSize / Path.length oriented.direction := div_pos positive (has_length_positive _ long)
    have negative := mul_neg_of_neg_of_pos down pace
    linarith
  · intro stands
    rcases proceed_counts _ _ _ _ _ _ proceeds with ⟨rankings, waiting, orientation⟩ | grows
    · refine .inr ⟨waiting.trans pending, fun attemptAbove results builtAfter => ?_⟩
      obtain ⟨k, scale, scaled⟩ := strict_last_entries path attempt.path valid attemptValid strict
        (rankings.trans place.rankings) attemptTable above attemptAbove rows results built builtAfter
      rw [orientation, attemptTable, scaled, ← tangents]
      exact mul_neg_of_pos_of_neg scale down
    · rw [counted] at grows
      exact absurd stands (Nat.not_le_of_lt grows)

end Path

namespace Run

theorem reached_walked (table : PayoffTable ℝ) (complete : table.Complete) (words : ∀ d ∈ table.dims, d < Word.size)
    (config : Config ℝ) (run : Run ℝ) (reached : Reached table config run) : Path.Walked table run.path := by
  induction reached with
  | start path begun => exact .start config path begun
  | step run next before above taken ih =>
      obtain ⟨valid, -⟩ := reached_valid table complete words config run before
      obtain ⟨outcome, attempt, ended, advanced, -, -, moved⟩ := step_succeeds run valid config
      have here : next.path = attempt.path := moved next (Except.ok.inj (ended.symm.trans taken))
      exact here ▸ .advance run.path _ config attempt ih advanced

-- With no merge there is no split, and a class for every strategy.
theorem reached_strict (table : PayoffTable ℝ) (complete : table.Complete) (words : ∀ d ∈ table.dims, d < Word.size)
    (config : Config ℝ) (run : Run ℝ) (reached : Reached table config run) (unmerged : run.path.merges = 0) :
    run.path.splits = 0 ∧ run.path.Strict := by
  obtain ⟨valid, same⟩ := reached_valid table complete words config run reached
  have ledger := reached_ledger table complete words config run reached
  have none : run.path.splits = 0 := Nat.le_zero.mp (unmerged ▸ ledger.behind)
  refine ⟨none, Ranking.class_count_full _ _ valid.rankings ?_⟩
  have classes := ledger.classes
  omega

theorem unmerged_step (table : PayoffTable ℝ) (complete : table.Complete) (words : ∀ d ∈ table.dims, d < Word.size)
    (config : Config ℝ) (positive : 0 < config.stepSize) (floor : 0 ≤ config.lambdaFloor) (run : Run ℝ)
    (reached : Reached table config run) (above : run.aboveFloor config) (unmerged : run.path.merges = 0)
    (falls : run.path.Falls) : ∃ attempt, run.path.advance (run.steps + 1) config = .ok attempt ∧
      (∀ n lambda, attempt.failure ≠ some (.degenerate n lambda)) ∧ attempt.path.lambda < run.path.lambda ∧
      (attempt.path.changes = 0 → attempt.path.Falls) := by
  obtain ⟨valid, faces, -⟩ :=
    Path.walked_valid table complete words run.path (reached_walked table complete words config run reached)
  obtain ⟨unsplit, strict⟩ := reached_strict table complete words config run reached unmerged
  obtain ⟨attempt, advanced, goes, lower, stands⟩ := run.path.strict_step_falls valid faces strict
    (above_floor_positive run config floor above) falls (run.steps + 1) config positive
  exact ⟨attempt, advanced, goes, lower, fun none => stands (none ▸ Nat.zero_le _)⟩

theorem reached_falls (table : PayoffTable ℝ) (complete : table.Complete) (words : ∀ d ∈ table.dims, d < Word.size)
    (config : Config ℝ) (positive : 0 < config.stepSize) (floor : 0 ≤ config.lambdaFloor) (run : Run ℝ)
    (reached : Reached table config run) (unmerged : run.path.merges = 0) : run.path.Falls := by
  induction reached with
  | start path begun =>
      obtain ⟨rankings, -, rfl⟩ := Path.start_state table config path begun
      exact .inl rfl
  | step run next before above taken ih =>
      obtain ⟨valid, -⟩ := reached_valid table complete words config run before
      obtain ⟨outcome, attempt, ended, advanced, -, -, moved⟩ := step_succeeds run valid config
      have here : next.path = attempt.path := moved next (Except.ok.inj (ended.symm.trans taken))
      have merges := Path.advance_merges run.path _ config attempt advanced
      rw [← here, unmerged] at merges
      have earlier : run.path.merges = 0 := Nat.le_zero.mp merges
      obtain ⟨same, sameRun, -, -, stands⟩ :=
        unmerged_step table complete words config positive floor run before above earlier (ih earlier)
      cases advanced.symm.trans sameRun
      obtain ⟨unsplit, -⟩ := reached_strict table complete words config next (.step run next before above taken) unmerged
      rw [here] at unmerged unsplit ⊢
      exact stands (by rw [Path.changes, unmerged, unsplit])

end Run

-- Whether or not the step is then found feasible.
theorem Game.lambda_falls_before_first_merge (game : Game) (reachable : game.Reachable) (config : Config ℝ)
    (positive : 0 < config.stepSize) (floor : 0 ≤ config.lambdaFloor) (run : Run ℝ)
    (reached : run.Reached (.ofGame game) config) (above : run.aboveFloor config) (unmerged : run.path.merges = 0) :
    ∃ attempt, run.path.advance (run.steps + 1) config = .ok attempt ∧
      (∀ n lambda, attempt.failure ≠ some (.degenerate n lambda)) ∧ attempt.path.lambda < run.path.lambda := by
  have valid := reachable_well_formed game reachable
  have complete : (PayoffTable.ofGame game : PayoffTable ℝ).Complete := PayoffTable.of_game_complete game valid
  have words := Dimensions.words_of_count game.dimensions valid.addressable
  have falls := Run.reached_falls _ complete words config positive floor run reached unmerged
  obtain ⟨attempt, advanced, goes, lower, -⟩ :=
    Run.unmerged_step _ complete words config positive floor run reached above unmerged falls
  exact ⟨attempt, advanced, goes, lower⟩

theorem Game.lambda_falls_before_first_merge_crossing :
    ∃ game, (blank [3, 2]).performAll Crossing.history = .ok game ∧
      ∃ (run : Run ℝ) (attempt : Path.Attempt ℝ), run.path.rankings = [⟨[[0], [1], [2]]⟩, ⟨[[0], [1]]⟩] ∧
        run.path.advance (run.steps + 1) Crossing.stride = .ok attempt ∧ attempt.path.lambda < 1 := by
  obtain ⟨game, made, table⟩ := Crossing.made
  have begun : Path.start (.ofGame game) Crossing.stride =
      .ok (.ok (Crossing.start (Crossing.center game.payoffScale))) := table ▸ Crossing.starts _ Crossing.stride rfl
  let run : Run ℝ := .ofPath (Crossing.start (Crossing.center game.payoffScale))
  have above : run.aboveFloor Crossing.stride = true := decide_eq_true zero_lt_one
  obtain ⟨attempt, advanced, -, lower⟩ := lambda_falls_before_first_merge game ⟨[3, 2], _, _, rfl, made⟩ Crossing.stride
    zero_lt_one le_rfl run (.start _ begun) above rfl
  exact ⟨game, made, run, attempt, rfl, advanced, lower⟩

end NormalForm
