import NormalForm.Binary64.Scalar
import NormalForm.Proofs.Game.Operations
import NormalForm.Proofs.Path.Safety
import NormalForm.Proofs.Path.Start
import NormalForm.Solver.Run

/-!
Runs of the path follower never fault, over any arithmetic and with any observer. Between two steps
every player's strategies are placed once each in non-empty classes, so that the matrix has a row per
strategy and the next step can be taken.
-/

set_option autoImplicit false

namespace NormalForm

/-! The payoff table of a game. -/

theorem PayoffTable.of_game_complete {α : Type} [Arithmetic α] (game : Game) (valid : game.WellFormed) :
    (PayoffTable.ofGame game : PayoffTable α).Complete := by
  refine ⟨Array.size_map.trans valid.cells, ?_⟩
  intro payoffs member
  simp only [ofGame, Array.mem_map] at member
  obtain ⟨cell, -, paid⟩ := member
  cases cell with
  | none => cases paid
  | some place =>
      cases found : game.outcomes[place]? with
      | none => simp [found] at paid
      | some outcome =>
          simp only [found, Option.bind_eq_bind, Option.bind_some, Option.pure_def, Option.some.injEq] at paid
          rw [← paid, List.length_map]
          exact (valid.outcomes place outcome found).payoffs

theorem PayoffTable.of_game_payoff {α : Type} [Arithmetic α] (game : Game) (index player : Nat) :
    (PayoffTable.ofGame game : PayoffTable α).payoff index player =
      match game.cells[index]? with
      | none => .error .bounds
      | some cell =>
          match cell.bind fun place => game.outcomes[place]? with
          | none => .ok (Arithmetic.ofRat 0)
          | some outcome => entry (outcome.payoffs.map Arithmetic.ofRat) player := by
  simp only [payoff, ofGame, Array.getElem?_map]
  cases game.cells[index]? with
  | none => rfl
  | some cell =>
      cases cell with
      | none => rfl
      | some place =>
          cases found : game.outcomes[place]? with
          | none => simp [found]
          | some outcome => simp [found]

namespace Run

variable {α : Type} [Scalar α]

-- The states of runs between two steps, whatever the budget of steps and the observer.
inductive Reached (table : PayoffTable α) (config : Config α) : Run α → Prop where
  | start (path : Path α) (begun : Path.start table config = .ok (.ok path)) :
      Reached table config (ofPath path)
  | step (run next : Run α) (before : Reached table config run) (above : run.aboveFloor config)
      (taken : run.step config = .ok (.ok next)) : Reached table config next

-- How runs can end.
inductive Closes (table : PayoffTable α) (config : Config α) : Ending α → Prop where
  | unstarted (failure : SolveError α) (begun : Path.start table config = .ok (.error failure)) :
      Closes table config { result := .error failure, events := [] }
  | finished (run : Run α) (reached : Reached table config run) : Closes table config (run.finish config)
  | cancelled (run : Run α) (reached : Reached table config run) : Closes table config run.cancel
  | failed (run : Run α) (ending : Ending α) (reached : Reached table config run)
      (above : run.aboveFloor config) (taken : run.step config = .ok (.error ending)) :
      Closes table config ending

theorem step_succeeds (run : Run α) (valid : run.path.Valid) (config : Config α) :
    ∃ outcome attempt, run.step config = .ok outcome ∧
      run.path.advance (run.steps + 1) config = .ok attempt ∧ attempt.path.Valid ∧
      Path.Displaced run.path attempt.path.profile ∧ ∀ next, outcome = .ok next → next.path = attempt.path := by
  obtain ⟨attempt, advanced, attemptValid, displaced⟩ :=
    run.path.advance_succeeds valid (run.steps + 1) config
  simp only [step, advanced, ok_bind]
  cases attempt.failure with
  | some failure => exact ⟨_, attempt, rfl, rfl, attemptValid, displaced, nofun⟩
  | none =>
      refine ⟨_, attempt, rfl, rfl, attemptValid, displaced, ?_⟩
      intro next same
      cases same
      rfl

theorem reached_valid (table : PayoffTable α) (complete : table.Complete)
    (words : ∀ d ∈ table.dims, d < Word.size) (config : Config α) (run : Run α)
    (reached : Reached table config run) : run.path.Valid ∧ run.path.table = table := by
  induction reached with
  | start path begun =>
      obtain ⟨outcome, same, begins⟩ := Path.start_succeeds table complete words config
      have first := begins path (Except.ok.inj (same.symm.trans begun))
      exact ⟨first.valid, congrArg Mixed.table first.profile⟩
  | step run next _ _ taken ih =>
      obtain ⟨valid, same⟩ := ih
      obtain ⟨outcome, attempt, ended, -, attemptValid, displaced, moved⟩ := step_succeeds run valid config
      have here : next.path = attempt.path := moved next (Except.ok.inj (ended.symm.trans taken))
      have kept : attempt.path.table = run.path.table := Path.displaced_table run.path _ displaced
      exact ⟨here ▸ attemptValid, by rw [here, kept, same]⟩

variable {m : Type → Type} [Monad m] [LawfulMonad m]

theorem bind_closes (table : PayoffTable α) (config : Config α) (first : m Bool)
    (next : Bool → m (Except Fault (Ending α)))
    (answers : ∀ stop, ∃ endings : m { ending : Ending α // Closes table config ending },
      next stop = (fun ending => .ok ending.val) <$> endings) :
    ∃ endings : m { ending : Ending α // Closes table config ending },
      first >>= next = (fun ending => .ok ending.val) <$> endings := by
  choose endings same using answers
  refine ⟨first >>= endings, ?_⟩
  rw [map_bind]
  exact bind_congr same

-- The induction is on the budget; every answer of the observer leads to a proper ending.
theorem follow_succeeds (table : PayoffTable α) (complete : table.Complete)
    (words : ∀ d ∈ table.dims, d < Word.size) (config : Config α) (sink : StatusSink m α) (budget : Nat)
    (run : Run α) (reached : Reached table config run) :
    ∃ endings : m { ending : Ending α // Closes table config ending },
      follow sink config budget run = (fun ending => .ok ending.val) <$> endings := by
  induction budget generalizing run with
  | zero => exact ⟨pure ⟨_, .finished run reached⟩, by rw [follow, map_pure]⟩
  | succ budget ih =>
      by_cases above : run.aboveFloor config = true
      · rw [follow, if_pos above]
        apply bind_closes
        intro stop
        cases stop with
        | true => exact ⟨pure ⟨_, .cancelled run reached⟩, by rw [if_pos rfl, map_pure]⟩
        | false =>
            obtain ⟨valid, -⟩ := reached_valid table complete words config run reached
            obtain ⟨outcome, -, taken, -⟩ := step_succeeds run valid config
            rw [if_neg Bool.false_ne_true, taken]
            cases outcome with
            | error ending => exact ⟨pure ⟨_, .failed run ending reached above taken⟩, by rw [map_pure]⟩
            | ok next => exact ih next (.step run next reached above taken)
      · exact ⟨pure ⟨_, .finished run reached⟩, by rw [follow, if_neg above, map_pure]⟩

end Run

theorem PayoffTable.solve_succeeds {m : Type → Type} [Monad m] [LawfulMonad m] {α : Type} [Scalar α]
    (table : PayoffTable α) (complete : table.Complete) (words : ∀ d ∈ table.dims, d < Word.size)
    (config : Config α) (sink : StatusSink m α) :
    ∃ endings : m { ending : Ending α // Run.Closes table config ending },
      table.solve config sink = (fun ending => .ok ending.val) <$> endings := by
  obtain ⟨outcome, begun, -⟩ := Path.start_succeeds table complete words config
  rw [solve]
  rw [begun]
  cases outcome with
  | error failure => exact ⟨pure ⟨_, .unstarted failure begun⟩, by rw [map_pure]⟩
  | ok path => exact Run.follow_succeeds table complete words config sink _ _ (.start path begun)

end NormalForm
