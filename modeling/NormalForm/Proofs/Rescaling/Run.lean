import NormalForm.Proofs.Rescaling.Repair
import NormalForm.Proofs.Solver.Safety

/-!
Whole runs over a table in another unit. The start ranks the strategies alike if the tolerance of ties
goes with the unit, and a run goes alike if every one of its steps does.
-/

set_option autoImplicit false

namespace NormalForm

variable {α : Type}

namespace Path

section Start

variable [Arithmetic α] (f : α → α) (rescaling : Rescaling f) (one other : PayoffTable α)
  (rescales : one.Rescales f other) (tolerance unitTolerance : α)
  (ranked : ∀ values, Ranking.byPayoff (values.map f) unitTolerance = Ranking.byPayoff values tolerance)

include rescaling ranked

theorem initial_ranking_over (profile : Mixed α) (rescales : profile.table.Rescales f other) (player : Nat) :
    initialRanking (profile.withTable other) unitTolerance player =
      (initialRanking profile tolerance player).map (Except.mapError (SolveError.inUnit f)) := by
  have count : (profile.withTable other).table.strategyCount player = profile.table.strategyCount player :=
    profile.table.strategy_count_over f other rescales player
  have values := map_m_map (List.range (profile.table.strategyCount player)) (profile.strategyValue player)
    ((profile.withTable other).strategyValue player) f fun strategy _ =>
      profile.strategy_value_over f rescaling other rescales player strategy
  rw [initialRanking, initialRanking, count, values]
  cases (List.range (profile.table.strategyCount player)).mapM (profile.strategyValue player) with
  | error fault => rfl
  | ok values =>
      simp only [Except.map, ok_bind, ranked]
      cases Ranking.byPayoff values tolerance with
      | error fault => rfl
      | ok outcome =>
          cases outcome with
          | ok ranking => rfl
          | error tie =>
              simp only [ok_bind, entry_map]
              cases entry values tie.1 with
              | error fault => rfl
              | ok value => rfl

theorem initial_rankings_over (profile : Mixed α) (rescales : profile.table.Rescales f other) (players : List Nat) :
    initialRankings (profile.withTable other) unitTolerance players =
      (initialRankings profile tolerance players).map (Except.mapError (SolveError.inUnit f)) := by
  induction players with
  | nil => rfl
  | cons player rest ih =>
      rw [initialRankings, initialRankings, ih,
        initial_ranking_over f rescaling other tolerance unitTolerance ranked profile rescales player]
      cases initialRanking profile tolerance player with
      | error fault => rfl
      | ok first =>
          cases first with
          | error failure => rfl
          | ok ranking =>
              cases initialRankings profile tolerance rest with
              | error fault => rfl
              | ok later => cases later <;> rfl

omit ranked in
include rescales in
theorem start_over (config : Config α)
    (ranked : ∀ values,
      Ranking.byPayoff (values.map f) (config.tieTolerance * Arithmetic.max other.scale Arithmetic.one) =
        Ranking.byPayoff values (config.tieTolerance * Arithmetic.max one.scale Arithmetic.one)) :
    start other config = (start one config).map fun outcome =>
      (outcome.mapError (SolveError.inUnit f)).map fun path => path.withTable other := by
  have uniform : Mixed.uniform other = (Mixed.uniform one).withTable other := by
    rw [Mixed.uniform, Mixed.uniform, rescales.dims]
    rfl
  rw [start, start, rescales.dims]
  split
  · rfl
  · cases emptyPlayer? one.dims with
    | some player => rfl
    | none =>
        simp only [uniform, initial_rankings_over f rescaling other _ _ ranked (Mixed.uniform one) rescales]
        cases initialRankings (Mixed.uniform one)
            (config.tieTolerance * Arithmetic.max one.scale Arithmetic.one) (List.range one.dims.length) with
        | error fault => rfl
        | ok outcome => cases outcome <;> rfl

end Start

end Path

def Report.withTable (report : Report α) (table : PayoffTable α) : Report α :=
  { report with equilibria := report.equilibria.map fun profile => profile.withTable table }

def Ending.withTable (ending : Ending α) (table : PayoffTable α) : Ending α :=
  { ending with result := ending.result.map fun report => report.withTable table }

namespace Run

def withTable (run : Run α) (table : PayoffTable α) : Run α := { run with path := run.path.withTable table }

theorem of_path_over (other : PayoffTable α) (path : Path α) (dims : other.dims = path.table.dims) :
    ofPath (path.withTable other) = (ofPath path).withTable other := by
  have same : (path.withTable other).table.dims = path.table.dims := dims
  rw [ofPath, ofPath, same]
  rfl

variable [Scalar α]

-- The next step of a run does the same over both tables.
def StepsAlike (other : PayoffTable α) (config : Config α) (run : Run α) : Prop :=
  (run.path.withTable other).advance (run.steps + 1) config =
    (run.path.advance (run.steps + 1) config).map fun attempt => attempt.withTable other

theorem step_over (other : PayoffTable α) (config : Config α) (run : Run α) (alike : run.StepsAlike other config) :
    (run.withTable other).step config = (run.step config).map fun outcome =>
      (outcome.mapError fun ending => ending.withTable other).map fun next => next.withTable other := by
  have path : (run.withTable other).path = run.path.withTable other := rfl
  have steps : (run.withTable other).steps = run.steps := rfl
  rw [step, step, path, steps, alike]
  cases run.path.advance (run.steps + 1) config with
  | error fault => rfl
  | ok attempt =>
      simp only [Except.map, ok_bind]
      cases failed : attempt.failure with
      | some failure =>
          have failedOver : (attempt.withTable other).failure = some failure := failed
          rw [failedOver]
          rfl
      | none =>
          have wholeOver : (attempt.withTable other).failure = none := failed
          rw [wholeOver]
          rfl

variable {m : Type → Type} [Monad m] [LawfulMonad m]

-- The induction is on the budget; the observer sees the same over both tables.
theorem follow_over (one other : PayoffTable α) (config : Config α) (sink : StatusSink m α)
    (alike : ∀ run, Reached one config run → run.aboveFloor config → run.StepsAlike other config) (budget : Nat)
    (run : Run α) (reached : Reached one config run) :
    follow sink config budget (run.withTable other) =
      Except.map (fun ending => ending.withTable other) <$> follow sink config budget run := by
  induction budget generalizing run with
  | zero =>
      rw [follow, follow, map_pure]
      rfl
  | succ budget ih =>
      have floor : (run.withTable other).aboveFloor config = run.aboveFloor config := rfl
      have attended : (run.withTable other).attend sink config = run.attend sink config := rfl
      rw [follow, follow, floor, attended]
      by_cases above : run.aboveFloor config = true
      · rw [if_pos above, if_pos above, map_bind]
        apply bind_congr
        intro stop
        cases stop with
        | true =>
            rw [if_pos rfl, if_pos rfl, map_pure]
            rfl
        | false =>
            rw [if_neg Bool.false_ne_true, if_neg Bool.false_ne_true,
              step_over other config run (alike run reached above)]
            cases taken : run.step config with
            | error fault =>
                simp only [Except.map, map_pure]
            | ok outcome =>
                cases outcome with
                | error ending =>
                    simp only [Except.map, Except.mapError, map_pure]
                | ok next => exact ih next (.step run next reached above taken)
      · rw [if_neg above, if_neg above, map_pure]
        rfl

end Run

-- A run that starts over both tables and steps alike.
theorem PayoffTable.solve_over {m : Type → Type} [Monad m] [LawfulMonad m] [Scalar α] (one other : PayoffTable α)
    (dims : other.dims = one.dims) (complete : one.Complete) (words : ∀ d ∈ one.dims, d < Word.size)
    (config : Config α) (sink : StatusSink m α) (path : Path α) (begun : Path.start one config = .ok (.ok path))
    (begunOver : Path.start other config = .ok (.ok (path.withTable other)))
    (alike : ∀ run, Run.Reached one config run → run.aboveFloor config → run.StepsAlike other config) :
    other.solve config sink = Except.map (fun ending => ending.withTable other) <$> one.solve config sink := by
  have reached := Run.Reached.start path begun
  obtain ⟨-, table⟩ := Run.reached_valid one complete words config _ reached
  have first : Run.ofPath (path.withTable other) = (Run.ofPath path).withTable other :=
    Run.of_path_over other path (dims.trans (congrArg PayoffTable.dims table).symm)
  rw [solve, solve, begun, begunOver]
  simp only [first]
  exact Run.follow_over one other config sink alike config.maxSteps (.ofPath path) reached

end NormalForm
