import NormalForm.Proofs.Path.Feasible
import NormalForm.Proofs.Solver.Course
import NormalForm.Solver.Settings

/-!
Profiles that a run reports after a step. They have passed the test of feasibility, which stops no value
that is not a number; but unless the step size is no number or a giant, lambda and all probabilities are
numbers, so that none of them is out of bounds either.
-/

set_option autoImplicit false

namespace NormalForm

open Binary64

-- What a run reports, unless it faults or fails.
def reported? {α : Type} (outcome : Except Fault (Ending α)) : Option (Report α) :=
  outcome.toOption.bind fun ending => ending.result.toOption

theorem reported_eq_some {α : Type} (outcome : Except Fault (Ending α)) (report : Report α) :
    reported? outcome = some report ↔ ∃ ending, outcome = .ok ending ∧ ending.result = .ok report := by
  simp only [reported?, Option.bind_eq_some_iff, to_option_eq_some]

namespace Path

-- A step that goes ahead passes the test, and what it moves stays bounded if the step size allows it.
theorem leads_to_feasible (path after : Path Float) (valid : path.Valid) (step : Nat) (config : Config Float)
    (leads : path.LeadsTo config step after) :
    after.Feasible config.feasibilityTolerance ∧
      (AtMost safeStep config.stepSize → path.Bounded → after.Bounded) := by
  obtain ⟨attempt, advanced, whole, rfl⟩ := leads
  obtain ⟨rows, oriented, built, settled, -, place, -, -⟩ := turn_succeeds path valid
  rw [advance_proceeds path step config rows oriented built settled] at advanced
  obtain ⟨long, moved, moves, passed, profile, lambda⟩ :=
    proceed_goes_ahead oriented.path oriented.direction _ step config attempt advanced whole
  obtain ⟨low, high⟩ := feasible_of_none moved step _ passed
  refine ⟨⟨lambda ▸ low, profile ▸ high⟩, fun small bounded => ?_⟩
  have before : oriented.path.Bounded := ⟨place.lambda ▸ bounded.lambda, place.profile ▸ bounded.probabilities⟩
  obtain ⟨inside, within⟩ := move_bounded oriented.path moved _ _ small long before moves
  exact ⟨lambda ▸ inside, profile ▸ within⟩

end Path

namespace Run

-- The induction is along the run; only the last step's test counts, but every step must stay bounded.
theorem reached_feasible (table : PayoffTable Float) (complete : table.Complete)
    (words : ∀ d ∈ table.dims, d < Word.size) (config : Config Float) (run : Run Float)
    (reached : Reached table config run) :
    (1 ≤ run.steps → run.path.Feasible config.feasibilityTolerance) ∧
      (AtMost Path.safeStep config.stepSize → run.path.Bounded) := by
  induction reached with
  | start path begun =>
      obtain ⟨outcome, same, begins⟩ := Path.start_succeeds table complete words config
      have first := begins path (Except.ok.inj (same.symm.trans begun))
      exact ⟨fun stepped => absurd stepped (Nat.not_succ_le_zero 0), fun _ => Path.start_bounded table config path first begun⟩
  | step run next before _ taken ih =>
      obtain ⟨valid, -⟩ := reached_valid table complete words config run before
      obtain ⟨leads, -, -⟩ := step_goes_on config run next taken
      obtain ⟨feasible, bounded⟩ := Path.leads_to_feasible run.path next.path valid _ config leads
      exact ⟨fun _ => feasible, fun small => bounded small (ih.2 small)⟩

end Run

-- Whatever the settings, nothing reported is seen to be out of bounds; with a step size of at most
-- `2 ^ 486` everything reported is a finite number.
theorem Game.solve_reports_feasible {m : Type → Type} [Monad m] [LawfulMonad m] (game : Game)
    (reachable : game.Reachable) (config : Config Float) (sink : StatusSink m Float) :
    Delivers (game.solve config sink) fun ending =>
      ∀ report, ending.result = .ok report → 1 ≤ report.steps → ∀ profile ∈ report.equilibria,
        (Arithmetic.lt (Arithmetic.one + config.feasibilityTolerance) report.lambda = false ∧
          ∀ p ∈ profile.probabilities, Arithmetic.lt p (-config.feasibilityTolerance) = false) ∧
        (AtMost Path.safeStep config.stepSize →
          report.lambda.isFinite = true ∧
          (IsNumber (Arithmetic.one + config.feasibilityTolerance) →
            Arithmetic.le report.lambda (Arithmetic.one + config.feasibilityTolerance) = true) ∧
          ∀ p ∈ profile.probabilities, p.isFinite = true) := by
  have valid := reachable_well_formed game reachable
  have complete : (PayoffTable.ofGame game : PayoffTable Float).Complete := PayoffTable.of_game_complete game valid
  have words := Dimensions.words_of_count game.dimensions valid.addressable
  refine delivers_imp _ _ _ (PayoffTable.solve_succeeds _ complete words config sink) ?_
  intro ending closes report same stepped profile listed
  cases closes with
  | unstarted failure => cases same
  | cancelled run =>
      cases same
      cases listed
  | failed run ending reached above taken =>
      obtain ⟨failure, failed, -⟩ := Run.step_ends config run ending taken
      cases failed.symm.trans same
  | finished run reached =>
      cases same
      cases List.mem_singleton.mp listed
      obtain ⟨passed, bounded⟩ := Run.reached_feasible _ complete words config run reached
      obtain ⟨low, high⟩ := passed stepped
      refine ⟨⟨low, high⟩, fun small => ?_⟩
      obtain ⟨lambda, probabilities⟩ := bounded small
      have finite := at_most_finite _ _ lambda
      refine ⟨finite, fun number => ?_, fun p member => at_most_finite _ _ (probabilities p member)⟩
      exact float_le_of_not_lt _ _ (number_of_finite _ finite) number low

-- Steps, lambda and probabilities of a report on a single profile.
theorem report_of_profile (outcome : Except Fault (Ending Float)) (steps : Nat) (lambda : Float)
    (probabilities : List Float)
    (same : (reported? outcome).map (fun report =>
      (report.steps, report.lambda, report.equilibria.map Mixed.probabilities)) = some (steps, lambda, [probabilities])) :
    ∃ report profile, reported? outcome = some report ∧ report.steps = steps ∧ report.lambda = lambda ∧
      report.equilibria = [profile] ∧ profile.probabilities = probabilities := by
  obtain ⟨report, reports, parts⟩ := Option.map_eq_some_iff.mp same
  simp only [Prod.mk.injEq] at parts
  obtain ⟨taken, reached, profiles⟩ := parts
  obtain ⟨profile, listed, held⟩ := List.map_eq_singleton_iff.mp profiles
  exact ⟨report, profile, reports, taken, reached, listed, held⟩

-- Two players with a strategy each, after a step of the usual size.
theorem Game.solve_reports_feasible_lone :
    ∃ game, (blank [1, 1]).performAll [.newOutcome ⟨1⟩, .setPayoff ⟨1⟩ 0 3, .setOutcome [0, 0] (some ⟨1⟩)] = .ok game ∧
      ∃ report profile, reported? (game.solve { Config.standard with maxSteps := 1 }
          (StatusSink.silent : StatusSink Id Float)) = some report ∧
        report.steps = 1 ∧ report.equilibria = [profile] ∧ AtMost Path.safeStep (Config.standard : Config Float).stepSize ∧
        report.lambda.isFinite = true ∧ ∀ p ∈ profile.probabilities, p.isFinite = true := by
  let config : Config Float := { Config.standard with maxSteps := 1 }
  obtain ⟨game, made, stepped⟩ : ∃ game, (blank [1, 1]).performAll
      [.newOutcome ⟨1⟩, .setPayoff ⟨1⟩ 0 3, .setOutcome [0, 0] (some ⟨1⟩)] = .ok game ∧
      (reported? (game.solve config (StatusSink.silent : StatusSink Id Float))).map (fun report =>
        (report.steps, report.lambda, report.equilibria.map Mixed.probabilities)) =
          some (1, .ofBits 0x3FEFF7CED916872B, [[Arithmetic.one, Arithmetic.one]]) := ⟨_, rfl, by decide +kernel⟩
  obtain ⟨report, profile, reports, steps, -, listed, -⟩ := report_of_profile _ _ _ _ stepped
  obtain ⟨ending, ends, result⟩ := (reported_eq_some _ report).mp reports
  obtain ⟨endings, same⟩ := solve_reports_feasible game ⟨[1, 1], _, _, rfl, made⟩ config
    (StatusSink.silent : StatusSink Id Float)
  have met : endings.val = ending := Except.ok.inj (same.symm.trans ends)
  have usual : (Config.standard : Config Float).stepSize = .ofBits 0x3F50624DD2F1A9FC := by decide +kernel
  have small : AtMost Path.safeStep (Config.standard : Config Float).stepSize := by
    rw [usual]
    exact at_most_of_parts _ .positive 4611686018427388 (-62) (by decide) rfl _ (by decide)
  obtain ⟨-, numbers⟩ := endings.property report (met ▸ result) steps.ge profile (listed ▸ List.mem_singleton_self _)
  obtain ⟨lambda, -, probabilities⟩ := numbers small
  exact ⟨game, made, report, profile, reports, steps, listed, small, lambda, probabilities⟩

-- A settings file can name a step size that is not a number. With it the only profile of a game is reported
-- as one without numbers.
theorem Game.unmeasured_step_is_reported :
    ∃ config, Config.ofText? "step_size = nan\n" = some config ∧
      ∃ report profile, reported? ((blank [1]).solve config (StatusSink.silent : StatusSink Id Float)) = some report ∧
        report.steps = 1 ∧ Arithmetic.isNumber report.lambda = false ∧ report.equilibria = [profile] ∧
        ∃ p ∈ profile.probabilities, Arithmetic.isNumber p = false := by
  have runs : (Config.ofText? "step_size = nan\n").map (fun config =>
      (reported? ((blank [1]).solve config (StatusSink.silent : StatusSink Id Float))).map fun report =>
        (report.steps, report.lambda, report.equilibria.map Mixed.probabilities)) =
          some (some (1, 0.0 / 0.0, [[0.0 / 0.0]])) := by decide +kernel
  obtain ⟨config, read, stepped⟩ := Option.map_eq_some_iff.mp runs
  obtain ⟨report, profile, reports, steps, lambda, listed, probabilities⟩ := report_of_profile _ _ _ _ stepped
  have missing : Arithmetic.isNumber (0.0 / 0.0 : Float) = false := by decide +kernel
  refine ⟨config, read, report, profile, reports, steps, lambda ▸ missing, listed, _, ?_, missing⟩
  rw [probabilities]
  exact List.mem_singleton_self _

end NormalForm
