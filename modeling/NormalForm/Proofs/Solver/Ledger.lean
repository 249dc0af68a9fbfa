import NormalForm.Proofs.Path.Ledger
import NormalForm.Proofs.Exact.Crossing
import NormalForm.Proofs.Solver.Course

/-!
The ledger of a run. Whatever the arithmetic, the settings and the observer, the classes of all players
stay as many as the strategies less the merges and plus the splits, none is left without a class, and a
split follows a merge that it undoes.
-/

set_option autoImplicit false

namespace NormalForm

variable {α : Type} [Scalar α]

namespace Run

theorem step_ledger (config : Config α) (run : Run α) (valid : run.path.Valid) (ledger : run.path.Keeps run.events)
    (outcome : Except (Ending α) (Run α)) (taken : run.step config = .ok outcome) :
    ∃ attempt : Path.Attempt α, attempt.path.Keeps (run.events ++ attempt.events) ∧
      (∀ ending, outcome = .error ending → ending.events = run.events ++ attempt.events) ∧
      ∀ next, outcome = .ok next → next.path = attempt.path ∧ next.events = run.events ++ attempt.events := by
  obtain ⟨attempt, advanced, taken⟩ := bind_eq_ok.mp taken
  refine ⟨attempt, run.path.advance_ledger valid (run.steps + 1) config run.events ledger attempt advanced, ?_⟩
  dsimp only at taken
  split at taken
  · cases taken
    refine ⟨?_, nofun⟩
    rintro ending ⟨⟩
    rfl
  · cases taken
    refine ⟨nofun, ?_⟩
    rintro next ⟨⟩
    exact ⟨rfl, rfl⟩

theorem reached_ledger (table : PayoffTable α) (complete : table.Complete)
    (words : ∀ d ∈ table.dims, d < Word.size) (config : Config α) (run : Run α)
    (reached : Reached table config run) : run.path.Keeps run.events := by
  induction reached with
  | start path begun =>
      exact (path.start_ledger table config begun).note (.starting path.table.dims) ⟨rfl, rfl⟩
  | step run next before above taken ih =>
      obtain ⟨valid, -⟩ := reached_valid table complete words config run before
      obtain ⟨attempt, ledger, -, goesOn⟩ := step_ledger config run valid ih _ taken
      obtain ⟨path, events⟩ := goesOn next rfl
      rwa [path, events]

-- A run that has begun has players, and every one of them has strategies.
theorem reached_strategies (table : PayoffTable α) (complete : table.Complete)
    (words : ∀ d ∈ table.dims, d < Word.size) (config : Config α) (run : Run α)
    (reached : Reached table config run) : ∀ d ∈ table.dims, 0 < d := by
  induction reached with
  | start path begun =>
      obtain ⟨outcome, same, begins⟩ := Path.start_succeeds table complete words config
      exact (begins path (Except.ok.inj (same.symm.trans begun))).strategies
  | step run next _ _ _ ih => exact ih

end Run

-- Numbers of classes against the counters of a path.
structure Path.Balances (path : Path α) (dims : Dimensions) : Prop where
  classes : Ranking.classCount path.rankings + path.merges = dims.total + path.splits
  players : path.rankings.length = dims.length
  nonempty : ∀ ranking ∈ path.rankings, 0 < ranking.size

-- The counters that are reported, against the number of strategies and the log.
structure Report.Balances (report : Report α) (dims : Dimensions) (log : List (Event α)) : Prop where
  behind : report.splits ≤ report.merges
  bound : report.merges + dims.length ≤ report.splits + dims.total
  merges : log.countP Event.isMerge = report.merges
  splits : log.countP Event.isSplit = report.splits

-- Splits stay behind merges up to any event of the log.
structure Ending.Balances (ending : Ending α) (dims : Dimensions) : Prop where
  report : ∀ report, ending.result = .ok report → report.Balances dims ending.events
  leads : ∀ before, before <+: ending.events → before.countP Event.isSplit ≤ before.countP Event.isMerge

structure Account.Balances (account : Account α) (dims : Dimensions) : Prop where
  states : ∀ path ∈ account.states, path.Balances dims
  ending : account.ending.Balances dims

namespace Run

variable (table : PayoffTable α) (complete : table.Complete) (words : ∀ d ∈ table.dims, d < Word.size)
  (config : Config α) (run : Run α) (reached : Reached table config run)

include complete words reached

theorem reached_balances : run.path.Balances table.dims := by
  obtain ⟨valid, same⟩ := reached_valid table complete words config run reached
  have strategies := reached_strategies table complete words config run reached
  have ledger := reached_ledger table complete words config run reached
  rw [Path.Keeps, same] at ledger
  have ranked := valid.rankings
  rw [same] at ranked
  refine ⟨ledger.classes, ranked.length_eq, ?_⟩
  intro ranking listed
  obtain ⟨d, member, fits⟩ := forall₂_value _ _ ranked ranking listed
  exact ranking.valid_size_pos d fits (strategies d member)

-- The last event of a run that is reported neither merges nor parts a class.
theorem reported_balances (termination : Termination) (equilibria : List (Mixed α)) (event : Event α)
    (other : event.isMerge = false ∧ event.isSplit = false) :
    Ending.Balances { result := .ok (run.reportWith termination equilibria), events := run.events ++ [event] }
      table.dims := by
  obtain ⟨valid, same⟩ := reached_valid table complete words config run reached
  have ledger := (reached_ledger table complete words config run reached).note event other
  refine ⟨?_, ledger.leads⟩
  rintro report ⟨⟩
  refine ⟨ledger.behind, ?_, ledger.merges, ledger.splits⟩
  have classes := ledger.classes
  have players := Ranking.class_count_ge _ _ valid.rankings
    (same ▸ reached_strategies table complete words config run reached)
  rw [same] at classes players
  simp only [reportWith]
  omega

omit reached in
theorem closes_balances (ending : Ending α) (closes : Closes table config ending) : ending.Balances table.dims := by
  cases closes with
  | unstarted failure begun =>
      refine ⟨nofun, ?_⟩
      intro before front
      rw [List.prefix_nil.mp front]
      exact Nat.le_refl 0
  | finished run reached => exact reported_balances table complete words config run reached _ _ _ ⟨rfl, rfl⟩
  | cancelled run reached => exact reported_balances table complete words config run reached _ _ _ ⟨rfl, rfl⟩
  | failed run ending reached above taken =>
      obtain ⟨valid, -⟩ := reached_valid table complete words config run reached
      obtain ⟨attempt, ledger, failed, -⟩ := step_ledger config run valid
        (reached_ledger table complete words config run reached) _ taken
      obtain ⟨failure, result, -⟩ := step_ends config run ending taken
      refine ⟨?_, ?_⟩
      · intro report answered
        cases result.symm.trans answered
      · rw [failed ending rfl]
        exact ledger.leads

end Run

-- Over any arithmetic: the account tells the run that is made, and it balances.
theorem Game.classes_balance_merges_and_splits {m : Type → Type} [Monad m] [LawfulMonad m] (game : Game)
    (reachable : game.Reachable) (config : Config α) (sink : StatusSink m α) :
    Except.map Account.ending <$> game.recount config sink = game.solve config sink ∧
      Delivers (game.recount config sink) fun account => account.Balances game.dimensions := by
  refine ⟨game.recount_solve config sink, ?_⟩
  have valid := reachable_well_formed game reachable
  have complete : (PayoffTable.ofGame game : PayoffTable α).Complete := PayoffTable.of_game_complete game valid
  have words := Dimensions.words_of_count game.dimensions valid.addressable
  obtain ⟨outcome, begun, -⟩ := Path.start_succeeds (.ofGame game) complete words config
  cases outcome with
  | error failure =>
      have unstarted := Run.Closes.unstarted failure begun
      rw [recount, PayoffTable.recount, begun]
      exact delivers_pure _ _ ⟨fun _ listed => absurd listed List.not_mem_nil,
        Run.closes_balances _ complete words config _ unstarted⟩
  | ok path =>
      apply delivers_imp _ _ _ (game.recount_course reachable config sink path begun)
      intro account course
      obtain ⟨states, closes⟩ := Run.course_reached (.ofGame game) config _ _ _ _ course (.start path begun)
      refine ⟨?_, Run.closes_balances _ complete words config _ closes⟩
      intro state listed
      obtain ⟨run, reached, rfl⟩ := states state listed
      exact run.reached_balances _ complete words config reached

theorem Game.classes_balance_merges_and_splits_crossing :
    ∃ game, (blank [3, 2]).performAll Crossing.history = .ok game ∧
      ∃ account : Account ℝ, ((game.recount Crossing.stride (.patient 0)).run 0).1 = .ok account ∧
        account.Balances [3, 2] := by
  obtain ⟨game, made, table⟩ := Crossing.made
  have dims : game.dimensions = [3, 2] := congrArg PayoffTable.dims table
  obtain ⟨-, balances⟩ := classes_balance_merges_and_splits (m := StateM Nat) game ⟨[3, 2], _, _, rfl, made⟩
    Crossing.stride (.patient 0)
  obtain ⟨account, run, balanced⟩ := delivers_state _ _ balances 0
  exact ⟨game, made, account, run, dims ▸ balanced⟩

end NormalForm
