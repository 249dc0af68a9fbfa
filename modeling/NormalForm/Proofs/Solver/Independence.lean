import NormalForm.Proofs.Exact.Crossing
import NormalForm.Proofs.Solver.Course

/-!
Budget, floor, cadence and observer do not influence the path. Runs whose settings agree in the step
size and in both tolerances pass the same states as long as both go on, and fail alike; the sequence of
states, the floor, the budget and the answers of the observer decide what is answered.
-/

set_option autoImplicit false

namespace NormalForm

-- Settings along the same path: they may differ in budget, floor and cadence.
structure Config.SamePath {α : Type} (a b : Config α) : Prop where
  stepSize : a.stepSize = b.stepSize
  tieTolerance : a.tieTolerance = b.tieTolerance
  feasibilityTolerance : a.feasibilityTolerance = b.feasibilityTolerance

theorem Config.same_path_symm {α : Type} (a b : Config α) (same : a.SamePath b) : b.SamePath a :=
  ⟨same.stepSize.symm, same.tieTolerance.symm, same.feasibilityTolerance.symm⟩

namespace Path

variable {α : Type} [Scalar α]

theorem start_same (table : PayoffTable α) (a b : Config α) (same : a.SamePath b) :
    start table a = start table b := by
  rw [start, start, same.tieTolerance]

theorem advance_same (path : Path α) (step : Nat) (a b : Config α) (same : a.SamePath b) :
    path.advance step a = path.advance step b := by
  rw [advance, advance, same.stepSize, same.feasibilityTolerance]

theorem leads_to_unique (path left right : Path α) (step : Nat) (a b : Config α) (same : a.SamePath b)
    (first : path.LeadsTo a step left) (second : path.LeadsTo b step right) : left = right := by
  obtain ⟨attempt, advanced, -, rfl⟩ := first
  obtain ⟨other, advancedOther, -, rfl⟩ := second
  rw [advance_same path step a b same, advancedOther] at advanced
  cases advanced
  rfl

theorem fails_with_same (path : Path α) (step : Nat) (a b : Config α) (same : a.SamePath b)
    (failure : SolveError α) (fails : path.FailsWith a step failure) : path.FailsWith b step failure := by
  obtain ⟨attempt, advanced, failed⟩ := fails
  exact ⟨attempt, advance_same path step a b same ▸ advanced, failed⟩

theorem fails_with_unique (path : Path α) (step : Nat) (config : Config α) (failure other : SolveError α)
    (fails : path.FailsWith config step failure) (also : path.FailsWith config step other) : failure = other := by
  obtain ⟨attempt, advanced, failed⟩ := fails
  obtain ⟨attempt', advanced', failed'⟩ := also
  cases advanced.symm.trans advanced'
  exact Option.some.inj (failed.symm.trans failed')

theorem leads_or_fails (path next : Path α) (step : Nat) (a b : Config α) (same : a.SamePath b)
    (failure : SolveError α) (leads : path.LeadsTo a step next) : ¬ path.FailsWith b step failure := by
  obtain ⟨attempt, advanced, whole, -⟩ := leads
  rintro ⟨other, advancedOther, failed⟩
  rw [advance_same path step a b same, advancedOther] at advanced
  cases advanced
  cases whole.symm.trans failed

-- The report of a run that ends at this state after so many steps.
def reportAfter (path : Path α) (steps : Nat) (termination : Termination) (equilibria : List (Mixed α)) :
    Report α :=
  { equilibria, termination, steps, lambda := path.lambda, merges := path.merges, splits := path.splits }

end Path

namespace Account

-- What is answered after `s` steps, in the state that stands then.
structure Answers (account : Account ℝ) (config : Config ℝ) (s : Nat) (stands : Path ℝ) : Prop where
  steps : account.states.length = s + 1
  final : account.states[s]? = some stands
  budget : s ≤ config.maxSteps
  -- Each step was attempted once, in turn, and perhaps one more that failed.
  attempts : account.attempts = List.range' 1 s ∨ account.attempts = List.range' 1 (s + 1)
  converged : account.result = .ok (stands.reportAfter s .converged [stands.profile]) ↔
    stands.lambda ≤ config.lambdaFloor
  exhausted : account.result = .ok (stands.reportAfter s .stepBudget [stands.profile]) ↔
    config.lambdaFloor < stands.lambda ∧ s = config.maxSteps
  cancelled : account.result = .ok (stands.reportAfter s .cancelled []) ↔ true ∈ account.polls
  failed : ∀ failure, account.result = .error failure ↔
    s + 1 ∈ account.attempts ∧ stands.FailsWith config (s + 1) failure
  -- One of the four happens.
  settled : stands.lambda ≤ config.lambdaFloor ∨ s = config.maxSteps ∨ true ∈ account.polls ∨
    s + 1 ∈ account.attempts

-- The states from a start on: each follows from the one before by a step, and no step is attempted at
-- or below the floor.
structure Follows (account : Account ℝ) (config : Config ℝ) (start : Path ℝ) : Prop where
  begins : account.states[0]? = some start
  moves : ∀ (s : Nat) (before after : Path ℝ), account.states[s]? = some before →
    account.states[s + 1]? = some after →
    before.LeadsTo config (s + 1) after ∧ config.lambdaFloor < before.lambda
  answers : ∃ s stands, account.Answers config s stands

-- The run failed in the attempt of this step.
def FailsAt (account : Account ℝ) (step : Nat) (failure : SolveError ℝ) : Prop :=
  account.result = .error failure ∧ account.states.length = step

end Account

namespace Run

theorem finish_result (run : Run ℝ) (config : Config ℝ) (termination : Termination)
    (equilibria : List (Mixed ℝ)) :
    (run.finish config).result = .ok (run.path.reportAfter run.steps termination equilibria) ↔
      termination = (if run.path.lambda ≤ config.lambdaFloor then .converged else .stepBudget) ∧
        equilibria = [run.path.profile] := by
  rw [finish, Exact.le_eq]
  by_cases low : run.path.lambda ≤ config.lambdaFloor
  · simp [low, reportWith, Path.reportAfter, eq_comm, and_comm]
  · simp [low, reportWith, Path.reportAfter, eq_comm, and_comm]

theorem above_floor (run : Run ℝ) (config : Config ℝ) :
    run.aboveFloor config ↔ config.lambdaFloor < run.path.lambda :=
  decide_eq_true_iff

-- The moments and the ending where a run halts decide one another.
structure Settles (config : Config ℝ) (left : Nat) (run : Run ℝ) (moments : List (Moment ℝ))
    (ending : Ending ℝ) : Prop where
  converged : ending.result = .ok (run.path.reportAfter run.steps .converged [run.path.profile]) ↔
    run.path.lambda ≤ config.lambdaFloor
  exhausted : ending.result = .ok (run.path.reportAfter run.steps .stepBudget [run.path.profile]) ↔
    config.lambdaFloor < run.path.lambda ∧ left = 0
  cancelled : ending.result = .ok (run.path.reportAfter run.steps .cancelled []) ↔
    true ∈ moments.filterMap Moment.poll?
  failed : ∀ failure, ending.result = .error failure ↔
    run.steps + 1 ∈ moments.filterMap Moment.attempt? ∧ run.path.FailsWith config (run.steps + 1) failure
  settled : run.path.lambda ≤ config.lambdaFloor ∨ left = 0 ∨ true ∈ moments.filterMap Moment.poll? ∨
    run.steps + 1 ∈ moments.filterMap Moment.attempt?

theorem halt_attempts (config : Config ℝ) (left : Nat) (run : Run ℝ) (moments : List (Moment ℝ))
    (ending : Ending ℝ) (halts : Halt config left run moments ending) :
    moments.filterMap Moment.attempt? = [] ∨ moments.filterMap Moment.attempt? = [run.steps + 1] := by
  cases halts with
  | finished => exact .inl rfl
  | cancelled => exact .inl rfl
  | failed => exact .inr (stepped_attempts config run [])

theorem finish_settles (config : Config ℝ) (left : Nat) (run : Run ℝ) (stops : left = 0 ∨ ¬ run.aboveFloor config) :
    Settles config left run [.state run.path] (run.finish config) := by
  rw [above_floor, not_lt] at stops
  refine ⟨?_, ?_, ?_, ?_, stops.symm.imp_right .inl⟩
  · simp [finish_result]
  · rw [finish_result]
    by_cases low : run.path.lambda ≤ config.lambdaFloor
    · simp [low]
    · simp [low, stops.resolve_right low, not_le.mp low]
  · rw [finish_result]
    by_cases low : run.path.lambda ≤ config.lambdaFloor
    · simp [low, Moment.poll?]
    · simp [low, Moment.poll?]
  · intro failure
    simp [finish, Moment.attempt?]

theorem cancel_settles (config : Config ℝ) (left : Nat) (run : Run ℝ) (above : run.aboveFloor config) :
    Settles config (left + 1) run [.state run.path, .polled true] run.cancel := by
  rw [above_floor] at above
  refine ⟨?_, ?_, ?_, ?_, .inr (.inr (.inl ?_))⟩
  · simp [cancel, reportWith, Path.reportAfter, not_le.mpr above]
  · simp [cancel, reportWith, Path.reportAfter]
  · simp [cancel, reportWith, Path.reportAfter, Moment.poll?]
  · intro failure
    simp [cancel, Moment.attempt?]
  · simp [Moment.poll?]

theorem failure_settles (config : Config ℝ) (left : Nat) (run : Run ℝ) (ending : Ending ℝ)
    (above : run.aboveFloor config) (taken : run.step config = .ok (.error ending)) :
    Settles config (left + 1) run (run.stepped config []) ending := by
  obtain ⟨failure, result, fails⟩ := step_ends config run ending taken
  have attempts : (run.stepped config []).filterMap Moment.attempt? = [run.steps + 1] :=
    stepped_attempts config run []
  have polls : true ∉ (run.stepped config []).filterMap Moment.poll? := by
    rw [stepped_polls, List.filterMap_nil, List.append_nil]
    exact attention_polls config run
  rw [above_floor] at above
  refine ⟨?_, ?_, ?_, ?_, .inr (.inr (.inr ?_))⟩
  · simp [result, not_le.mpr above]
  · simp [result]
  · simp [result, polls]
  · intro other
    rw [result, attempts, Except.error.injEq]
    refine ⟨fun same => ⟨List.mem_singleton_self _, same ▸ fails⟩, fun attempted => ?_⟩
    exact Path.fails_with_unique run.path _ config failure other fails attempted.2
  · rw [attempts]
    exact List.mem_singleton_self _

theorem halt_settles (config : Config ℝ) (left : Nat) (run : Run ℝ) (moments : List (Moment ℝ))
    (ending : Ending ℝ) (halts : Halt config left run moments ending) :
    Settles config left run moments ending := by
  cases halts with
  | finished _ _ stops => exact finish_settles config left run stops
  | cancelled left _ above _ => exact cancel_settles config left run above
  | failed left _ _ above taken => exact failure_settles config left run ending above taken

-- The whole course ends with a halt, and neither the attempts nor the polls before that place matter.
theorem course_answers (config : Config ℝ) (path : Path ℝ) (account : Account ℝ)
    (course : Course config config.maxSteps (.ofPath path) account.moments account.ending) :
    ∃ s stands, account.Answers config s stands := by
  obtain ⟨last, before, tail, parts, ⟨unused, budget, halt⟩, states, attempts, polls⟩ :=
    course_halts config _ _ _ _ course
  have start : (Run.ofPath path).steps = 0 := rfl
  rw [start, Nat.zero_add] at budget states
  rw [start, Nat.zero_add, Nat.sub_zero] at attempts
  have allStates : account.states = before.filterMap Moment.state? ++ [last.path] := by
    rw [Account.states, parts, List.filterMap_append, halt_states config unused last tail account.ending halt]
  have allAttempts : account.attempts = List.range' 1 last.steps ++ tail.filterMap Moment.attempt? := by
    rw [Account.attempts, parts, List.filterMap_append, attempts]
  have polled : true ∈ account.polls ↔ true ∈ tail.filterMap Moment.poll? := by
    rw [Account.polls, parts, List.filterMap_append, List.mem_append]
    exact or_iff_right polls
  have attempted : last.steps + 1 ∈ account.attempts ↔ last.steps + 1 ∈ tail.filterMap Moment.attempt? := by
    rw [allAttempts, List.mem_append]
    refine or_iff_right ?_
    rw [List.mem_range'_1]
    omega
  have spent : last.steps = config.maxSteps ↔ unused = 0 := by omega
  have settles := halt_settles config unused last tail account.ending halt
  refine ⟨last.steps, last.path, ?_, ?_, by omega, ?_, settles.converged, ?_, ?_, ?_, ?_⟩
  · rw [allStates, List.length_append, states, List.length_singleton]
  · rw [allStates, ← states, List.getElem?_concat_length]
  · rcases halt_attempts config unused last tail account.ending halt with none | one
    · exact .inl (by rw [allAttempts, none, List.append_nil])
    · exact .inr (by rw [allAttempts, one, List.range'_1_concat, Nat.add_comm])
  · rw [spent]
    exact settles.exhausted
  · rw [polled]
    exact settles.cancelled
  · rw [attempted]
    exact settles.failed
  · rw [spent, polled, attempted]
    exact settles.settled

theorem course_follows (config : Config ℝ) (path : Path ℝ) (account : Account ℝ)
    (course : Course config config.maxSteps (.ofPath path) account.moments account.ending) :
    account.Follows config path := by
  refine ⟨course_head config _ _ _ _ course, ?_, course_answers config path account course⟩
  intro s before after here next
  obtain ⟨leads, above⟩ := course_moves config _ _ _ _ course s before after here next
  have start : (Run.ofPath path).steps = 0 := rfl
  rw [start, Nat.zero_add] at leads
  exact ⟨leads, of_decide_eq_true above⟩

end Run

namespace Account

variable {a b : Config ℝ} {start : Path ℝ} {first second : Account ℝ}

-- The induction is on the step: equal states lead on to equal states.
theorem follows_same_states (same : a.SamePath b) (follows : first.Follows a start)
    (also : second.Follows b start) (s : Nat) (state other : Path ℝ) (here : first.states[s]? = some state)
    (there : second.states[s]? = some other) : state = other := by
  induction s generalizing state other with
  | zero =>
      cases here.symm.trans follows.begins
      cases there.symm.trans also.begins
      rfl
  | succ s ih =>
      obtain ⟨before, earlier⟩ : ∃ before, first.states[s]? = some before :=
        ⟨_, List.getElem?_eq_getElem (Nat.lt_of_succ_lt (List.getElem?_eq_some_iff.mp here).1)⟩
      obtain ⟨before', earlier'⟩ : ∃ before, second.states[s]? = some before :=
        ⟨_, List.getElem?_eq_getElem (Nat.lt_of_succ_lt (List.getElem?_eq_some_iff.mp there).1)⟩
      cases ih before before' earlier earlier'
      obtain ⟨leads, -⟩ := follows.moves s before state earlier here
      obtain ⟨leads', -⟩ := also.moves s before other earlier' there
      exact Path.leads_to_unique before state other (s + 1) a b same leads leads'

-- A step that fails on one side is not passed on the other, so an attempt of it there fails too.
theorem follows_same_failure (same : a.SamePath b) (follows : first.Follows a start)
    (also : second.Follows b start) (step : Nat) (attempted : step ∈ second.attempts)
    (failure : SolveError ℝ) (fails : first.FailsAt step failure) : second.FailsAt step failure := by
  obtain ⟨s, stands, answers⟩ := follows.answers
  obtain ⟨s', stands', answers'⟩ := also.answers
  obtain ⟨failed, length⟩ := fails
  obtain rfl : step = s + 1 := length.symm.trans answers.steps
  obtain ⟨-, fails⟩ := (answers.failed failure).mp failed
  have reached : s ≤ s' := by
    rcases answers'.attempts with each | each
    · rw [each, List.mem_range'_1] at attempted
      omega
    · rw [each, List.mem_range'_1] at attempted
      omega
  obtain ⟨other, here⟩ : ∃ other, second.states[s]? = some other :=
    ⟨_, List.getElem?_eq_getElem (answers'.steps ▸ Nat.lt_succ_of_le reached)⟩
  cases follows_same_states same follows also s stands other answers.final here
  have last : s = s' := by
    apply Nat.le_antisymm reached
    by_contra further
    obtain ⟨after, next⟩ : ∃ after, second.states[s + 1]? = some after :=
      ⟨_, List.getElem?_eq_getElem (by rw [answers'.steps]; omega)⟩
    obtain ⟨leads, -⟩ := also.moves s stands after here next
    exact Path.leads_or_fails stands after (s + 1) b a (a.same_path_symm b same) failure leads fails
  subst last
  cases here.symm.trans answers'.final
  refine ⟨(answers'.failed failure).mpr ⟨attempted, ?_⟩, answers'.steps⟩
  exact Path.fails_with_same stands (s + 1) a b same failure fails

-- Two runs over one game: neither starts, with the same error, or both pass the same states.
inductive Agree (table : PayoffTable ℝ) (a b : Config ℝ) (first second : Account ℝ) : Prop where
  | unstarted (failure : SolveError ℝ) (refused : Path.start table a = .ok (.error failure))
      (refusedToo : Path.start table b = .ok (.error failure)) (fails : first.FailsAt 0 failure)
      (failsToo : second.FailsAt 0 failure)
  | along (start : Path ℝ) (begun : Path.start table a = .ok (.ok start))
      (begunToo : Path.start table b = .ok (.ok start)) (follows : first.Follows a start)
      (followsToo : second.Follows b start)
      (states : ∀ (s : Nat) (state other : Path ℝ), first.states[s]? = some state →
        second.states[s]? = some other → state = other)
      (failures : ∀ step ∈ first.attempts, step ∈ second.attempts → ∀ failure,
        first.FailsAt step failure ↔ second.FailsAt step failure)

end Account

-- How an account of a game begins: with the error at the start, or along the path.
inductive Account.Opens (table : PayoffTable ℝ) (config : Config ℝ) (account : Account ℝ) : Prop where
  | refused (failure : SolveError ℝ) (start : Path.start table config = .ok (.error failure))
      (fails : account.FailsAt 0 failure)
  | follows (path : Path ℝ) (start : Path.start table config = .ok (.ok path))
      (follows : account.Follows config path)

section

variable {m : Type → Type} [Monad m] [LawfulMonad m] {n : Type → Type} [Monad n] [LawfulMonad n]

theorem Game.recount_opens (game : Game) (reachable : game.Reachable) (config : Config ℝ)
    (sink : StatusSink m ℝ) :
    Delivers (game.recount config sink) fun account => account.Opens (.ofGame game) config := by
  have valid := reachable_well_formed game reachable
  have complete : (PayoffTable.ofGame game : PayoffTable ℝ).Complete := PayoffTable.of_game_complete game valid
  have words := Dimensions.words_of_count game.dimensions valid.addressable
  obtain ⟨outcome, start, -⟩ := Path.start_succeeds (.ofGame game) complete words config
  cases outcome with
  | error failure =>
      rw [recount, PayoffTable.recount, start]
      exact delivers_pure _ _ (.refused failure start ⟨rfl, rfl⟩)
  | ok path =>
      refine delivers_imp _ _ _ (game.recount_course reachable config sink path start) ?_
      intro account course
      exact .follows path start (Run.course_follows config path account course)

theorem Account.opens_agree (table : PayoffTable ℝ) (a b : Config ℝ) (same : a.SamePath b)
    (first second : Account ℝ) (opens : first.Opens table a) (opensToo : second.Opens table b) :
    Agree table a b first second := by
  have together := Path.start_same table a b same
  cases opens with
  | refused failure start fails =>
      cases opensToo with
      | refused other startToo failsToo =>
          cases (start.symm.trans together).trans startToo
          exact .unstarted failure start startToo fails failsToo
      | follows path startToo follows => cases (start.symm.trans together).trans startToo
  | follows path start follows =>
      cases opensToo with
      | refused other startToo failsToo => cases (start.symm.trans together).trans startToo
      | follows other startToo followsToo =>
          cases (start.symm.trans together).trans startToo
          have back := a.same_path_symm b same
          refine .along path start startToo follows followsToo
            (follows_same_states same follows followsToo) ?_
          intro step attempted attemptedToo failure
          exact ⟨follows_same_failure same follows followsToo step attemptedToo failure,
            follows_same_failure back followsToo follows step attempted failure⟩

-- Every account of the one run agrees with every account of the other, and without the moments they
-- are the runs themselves.
theorem Game.path_is_independent_of_budget_and_observer (game : Game) (reachable : game.Reachable)
    (a b : Config ℝ) (same : a.SamePath b) (observer : StatusSink m ℝ) (other : StatusSink n ℝ) :
    Except.map Account.ending <$> game.recount a observer = game.solve a observer ∧
    Except.map Account.ending <$> game.recount b other = game.solve b other ∧
    Delivers (game.recount a observer) fun first =>
      Delivers (game.recount b other) fun second => Account.Agree (.ofGame game) a b first second := by
  refine ⟨game.recount_solve a observer, game.recount_solve b other, ?_⟩
  apply delivers_imp _ _ _ (game.recount_opens reachable a observer)
  intro first opens
  apply delivers_imp _ _ _ (game.recount_opens reachable b other)
  intro second opensToo
  exact Account.opens_agree _ a b same first second opens opensToo

end

theorem Game.path_is_independent_of_budget_and_observer_crossing :
    let brisk : Config ℝ := Crossing.stride
    let slow : Config ℝ := { Crossing.stride with maxSteps := 5, lambdaFloor := 1 / 20, reportInterval := 2 }
    ∃ game, (blank [3, 2]).performAll Crossing.history = .ok game ∧
      ∃ (path : Path ℝ) (first second : Account ℝ), Path.start (.ofGame game) brisk = .ok (.ok path) ∧
        (((game.recount brisk .silent : StateM Nat _)).run 0).1 = .ok first ∧
        ((game.recount slow (.patient 1)).run 0).1 = .ok second ∧
        Account.Agree (.ofGame game) brisk slow first second := by
  obtain ⟨game, made, table⟩ := Crossing.made
  have begun := Crossing.starts game.payoffScale Crossing.stride rfl
  rw [← table] at begun
  obtain ⟨-, -, delivers⟩ := path_is_independent_of_budget_and_observer game ⟨[3, 2], _, _, rfl, made⟩
    Crossing.stride { Crossing.stride with maxSteps := 5, lambdaFloor := 1 / 20, reportInterval := 2 }
    ⟨rfl, rfl, rfl⟩ (.silent : StatusSink (StateM Nat) ℝ) (.patient 1)
  obtain ⟨first, firstRun, rest⟩ := delivers_state _ _ delivers 0
  obtain ⟨second, secondRun, agree⟩ := delivers_state _ _ rest 0
  exact ⟨game, made, _, first, second, begun, firstRun, secondRun, agree⟩

end NormalForm
