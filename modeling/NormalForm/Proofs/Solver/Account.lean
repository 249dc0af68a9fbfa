import NormalForm.Proofs.Solver.Safety

/-!
Accounts of runs: the states that a run passes, what its observer is asked and told, and the steps that
it attempts, in order. A run that is accounted for goes on as it does without, and its account follows
a course that only the settings and the answers of the observer decide.
-/

set_option autoImplicit false

namespace NormalForm

inductive Moment (α : Type) where
  -- The path stands here, before it is decided whether the run goes on.
  | state (path : Path α)
  | polled (stop : Bool)
  | reported (progress : Progress α)
  | attempted (step : Nat)

namespace Moment

variable {α : Type}

def state? : Moment α → Option (Path α)
  | state path => some path
  | _ => none

def poll? : Moment α → Option Bool
  | polled stop => some stop
  | _ => none

def report? : Moment α → Option (Progress α)
  | reported progress => some progress
  | _ => none

def attempt? : Moment α → Option Nat
  | attempted step => some step
  | _ => none

end Moment

structure Account (α : Type) where
  ending : Ending α
  moments : List (Moment α)

namespace Account

variable {α : Type}

def result (account : Account α) : Except (SolveError α) (Report α) := account.ending.result

-- The state at place `s` is the one after `s` steps.
def states (account : Account α) : List (Path α) := account.moments.filterMap Moment.state?

def polls (account : Account α) : List Bool := account.moments.filterMap Moment.poll?

def reports (account : Account α) : List (Progress α) := account.moments.filterMap Moment.report?

def attempts (account : Account α) : List Nat := account.moments.filterMap Moment.attempt?

end Account

section Delivers

variable {m : Type → Type} [Monad m] [LawfulMonad m] {β γ : Type}

-- The computation never faults, and every result that it can have fits.
def Delivers (computation : m (Except Fault β)) (Fits : β → Prop) : Prop :=
  ∃ results : m { result : β // Fits result }, computation = (fun result => .ok result.val) <$> results

omit [LawfulMonad m] in
theorem delivers_imp [LawfulFunctor m] (computation : m (Except Fault β)) (Fits Weaker : β → Prop)
    (delivers : Delivers computation Fits) (weaker : ∀ result, Fits result → Weaker result) :
    Delivers computation Weaker := by
  obtain ⟨results, same⟩ := delivers
  refine ⟨(fun result => ⟨result.val, weaker result.val result.property⟩) <$> results, ?_⟩
  rw [same, ← comp_map]
  rfl

theorem delivers_pure (result : β) (Fits : β → Prop) (fits : Fits result) :
    Delivers (pure (.ok result) : m (Except Fault β)) Fits :=
  ⟨pure ⟨result, fits⟩, by rw [map_pure]⟩

theorem delivers_bind (first : m γ) (next : γ → m (Except Fault β)) (Fits : β → Prop)
    (each : ∀ value, Delivers (next value) Fits) : Delivers (first >>= next) Fits := by
  choose results same using each
  exact ⟨first >>= results, by rw [map_bind]; exact bind_congr same⟩

-- Over a monad of states the results are those of each state.
theorem delivers_state {σ : Type} (computation : StateM σ (Except Fault β)) (Fits : β → Prop)
    (delivers : Delivers computation Fits) (state : σ) :
    ∃ result, (computation.run state).1 = .ok result ∧ Fits result := by
  obtain ⟨results, rfl⟩ := delivers
  exact ⟨(results.run state).1.val, rfl, (results.run state).1.property⟩

end Delivers

/-! Runs with an account. -/

section Recount

variable {m : Type → Type} [Monad m] {α : Type}

def noted {β : Type} (computation : m β) (moment : β → Moment α) : StateT (List (Moment α)) m β :=
  fun past => computation >>= fun result => pure (result, past ++ [moment result])

theorem run_noted {β : Type} (computation : m β) (moment : β → Moment α) (past : List (Moment α)) :
    (noted computation moment).run past = computation >>= fun result => pure (result, past ++ [moment result]) :=
  rfl

-- The observer, with a note of each call.
def StatusSink.noted (sink : StatusSink m α) : StatusSink (StateT (List (Moment α)) m) α :=
  { poll := NormalForm.noted sink.poll .polled
    report := fun progress => NormalForm.noted (sink.report progress) fun _ => .reported progress }

-- An observer who counts the polls and stops the run at the one after so many.
def StatusSink.patient (patience : Nat) : StatusSink (StateM Nat) α :=
  { poll := fun polled => (polled == patience, polled + 1)
    report := fun _ => pure () }

variable [Scalar α]

namespace Run

-- A step after the moments of the past; `goOn` accounts for the run after it.
def attempt (config : Config α) (goOn : List (Moment α) → Run α → m (Except Fault (Account α)))
    (past : List (Moment α)) (run : Run α) : m (Except Fault (Account α)) :=
  let past := past ++ [.attempted (run.steps + 1)]
  match run.step config with
  | .error fault => pure (.error fault)
  | .ok (.error ending) => pure (.ok ⟨ending, past⟩)
  | .ok (.ok next) => goOn past next

-- The run as `follow` makes it, after the moments of the past.
def recount (sink : StatusSink m α) (config : Config α) :
    Nat → List (Moment α) → Run α → m (Except Fault (Account α))
  | 0, past, run => pure (.ok ⟨run.finish config, past ++ [.state run.path]⟩)
  | budget + 1, past, run =>
      let past := past ++ [.state run.path]
      if run.aboveFloor config then
        (run.attend sink.noted config).run past >>= fun attended =>
          if attended.1 then pure (.ok ⟨run.cancel, attended.2⟩)
          else attempt config (recount sink config budget) attended.2 run
      else pure (.ok ⟨run.finish config, past⟩)

end Run

-- The account of a whole run; nothing happens in one that cannot start.
def PayoffTable.recount (table : PayoffTable α) (config : Config α) (sink : StatusSink m α) :
    m (Except Fault (Account α)) :=
  match Path.start table config with
  | .error fault => pure (.error fault)
  | .ok (.error failure) => pure (.ok ⟨{ result := .error failure, events := [] }, []⟩)
  | .ok (.ok path) => Run.recount sink config config.maxSteps [] (.ofPath path)

def Game.recount (game : Game) (config : Config α) (sink : StatusSink m α) : m (Except Fault (Account α)) :=
  (PayoffTable.ofGame game).recount config sink

end Recount

namespace Run

variable {m : Type → Type} [Monad m] [LawfulMonad m] {α : Type} [Scalar α]

-- What happens between a state and the next attempt when the observer does not stop the run.
def attention (config : Config α) (run : Run α) : List (Moment α) :=
  if run.isDue config then [.polled false, .reported run.progress] else []

-- The moments of a state from which a step is attempted, in front of those after it.
def stepped (config : Config α) (run : Run α) (later : List (Moment α)) : List (Moment α) :=
  .state run.path :: (run.attention config ++ .attempted (run.steps + 1) :: later)

theorem attend_noted (sink : StatusSink m α) (config : Config α) (run : Run α) (past : List (Moment α)) :
    (run.attend sink.noted config).run past = run.attend sink config >>= fun stop =>
      pure (stop, past ++ if stop then [.polled true] else run.attention config) := by
  rw [attend, attend, attention]
  by_cases due : run.isDue config = true
  · simp only [if_pos due, StatusSink.noted, StateT.run_bind, run_noted, bind_assoc, pure_bind]
    apply bind_congr
    intro stop
    cases stop with
    | true =>
        rw [if_pos rfl, if_pos rfl, pure_bind]
        rfl
    | false =>
        rw [if_neg Bool.false_ne_true, if_neg Bool.false_ne_true]
        simp only [StateT.run_bind, run_noted, StateT.run_pure, bind_assoc, pure_bind, List.append_assoc,
          List.singleton_append, if_neg Bool.false_ne_true]
  · rw [if_neg due, if_neg due, if_neg due, pure_bind, StateT.run_pure, if_neg Bool.false_ne_true, List.append_nil]

-- Forgetting the moments gives the run.
theorem recount_follow (sink : StatusSink m α) (config : Config α) (budget : Nat) (past : List (Moment α))
    (run : Run α) :
    Except.map Account.ending <$> recount sink config budget past run = follow sink config budget run := by
  induction budget generalizing past run with
  | zero => exact map_pure _ _
  | succ budget ih =>
      rw [recount, follow]
      by_cases above : run.aboveFloor config = true
      · rw [if_pos above, if_pos above, attend_noted, map_bind, bind_assoc]
        apply bind_congr
        intro stop
        rw [pure_bind]
        cases stop with
        | true => exact map_pure _ _
        | false =>
            rw [if_neg Bool.false_ne_true, if_neg Bool.false_ne_true, attempt]
            cases run.step config with
            | error fault => exact map_pure _ _
            | ok outcome =>
                cases outcome with
                | error ending => exact map_pure _ _
                | ok next => exact ih _ next
      · rw [if_neg above, if_neg above]
        exact map_pure _ _

-- How a run can halt at a state with so many steps left, what happens there, and the ending.
inductive Halt (config : Config α) : Nat → Run α → List (Moment α) → Ending α → Prop where
  | finished (left : Nat) (run : Run α) (stops : left = 0 ∨ ¬ run.aboveFloor config) :
      Halt config left run [.state run.path] (run.finish config)
  | cancelled (left : Nat) (run : Run α) (above : run.aboveFloor config) (due : run.isDue config) :
      Halt config (left + 1) run [.state run.path, .polled true] run.cancel
  | failed (left : Nat) (run : Run α) (ending : Ending α) (above : run.aboveFloor config)
      (taken : run.step config = .ok (.error ending)) :
      Halt config (left + 1) run (run.stepped config []) ending

-- How a run can go on from a state with so many steps left, up to where it halts.
inductive Course (config : Config α) : Nat → Run α → List (Moment α) → Ending α → Prop where
  | halt (left : Nat) (run : Run α) (moments : List (Moment α)) (ending : Ending α)
      (halts : Halt config left run moments ending) : Course config left run moments ending
  | step (left : Nat) (run next : Run α) (moments : List (Moment α)) (ending : Ending α)
      (above : run.aboveFloor config) (taken : run.step config = .ok (.ok next))
      (later : Course config left next moments ending) :
      Course config (left + 1) run (run.stepped config moments) ending

-- An observer who is not due is not asked, and one who is can stop the run.
theorem delivers_attend {β : Type} (sink : StatusSink m α) (config : Config α) (run : Run α)
    (next : Bool → m (Except Fault β)) (Fits : β → Prop) (goes : Delivers (next false) Fits)
    (stops : run.isDue config → Delivers (next true) Fits) : Delivers (run.attend sink config >>= next) Fits := by
  rw [attend]
  by_cases due : run.isDue config = true
  · rw [if_pos due, bind_assoc]
    apply delivers_bind
    intro stop
    cases stop with
    | true =>
        rw [if_pos rfl, pure_bind]
        exact stops due
    | false =>
        rw [if_neg Bool.false_ne_true, bind_assoc]
        apply delivers_bind
        intro _
        rw [pure_bind]
        exact goes
  · rw [if_neg due, pure_bind]
    exact goes

theorem attempt_course (table : PayoffTable α) (complete : table.Complete)
    (words : ∀ d ∈ table.dims, d < Word.size) (config : Config α) (left : Nat) (past : List (Moment α)) (run : Run α)
    (reached : Reached table config run) (above : run.aboveFloor config)
    (goOn : List (Moment α) → Run α → m (Except Fault (Account α)))
    (later : ∀ before next, Reached table config next → Delivers (goOn before next) fun account =>
      ∃ moments, account.moments = before ++ moments ∧ Course config left next moments account.ending) :
    Delivers (attempt config goOn (past ++ [.state run.path] ++ run.attention config) run) fun account =>
      ∃ moments, account.moments = past ++ moments ∧ Course config (left + 1) run moments account.ending := by
  obtain ⟨valid, -⟩ := reached_valid table complete words config run reached
  obtain ⟨outcome, -, taken, -⟩ := step_succeeds run valid config
  rw [attempt, taken]
  cases outcome with
  | error ending =>
      exact delivers_pure _ _ ⟨_, by simp [stepped], .halt _ _ _ _ (.failed left run ending above taken)⟩
  | ok next =>
      refine delivers_imp _ _ _ (later _ next (.step run next reached above taken)) ?_
      intro account told
      obtain ⟨moments, same, course⟩ := told
      exact ⟨_, by simp [same, stepped], .step left run next moments account.ending above taken course⟩

-- The induction is on the budget; every answer of the observer leads on along a course.
theorem recount_course (table : PayoffTable α) (complete : table.Complete)
    (words : ∀ d ∈ table.dims, d < Word.size) (config : Config α) (sink : StatusSink m α) (budget : Nat)
    (past : List (Moment α)) (run : Run α) (reached : Reached table config run) :
    Delivers (recount sink config budget past run) fun account =>
      ∃ moments, account.moments = past ++ moments ∧ Course config budget run moments account.ending := by
  induction budget generalizing past run with
  | zero => exact delivers_pure _ _ ⟨_, rfl, .halt _ _ _ _ (.finished 0 run (.inl rfl))⟩
  | succ budget ih =>
      by_cases above : run.aboveFloor config = true
      · rw [recount, if_pos above, attend_noted, bind_assoc]
        apply delivers_attend
        · rw [pure_bind]
          exact attempt_course table complete words config budget past run reached above _ ih
        · intro due
          rw [pure_bind]
          exact delivers_pure _ _ ⟨_, by simp, .halt _ _ _ _ (.cancelled budget run above due)⟩
      · rw [recount, if_neg above]
        exact delivers_pure _ _ ⟨_, rfl, .halt _ _ _ _ (.finished (budget + 1) run (.inr above))⟩

end Run

theorem Game.recount_solve {m : Type → Type} [Monad m] [LawfulMonad m] {α : Type} [Scalar α] (game : Game)
    (config : Config α) (sink : StatusSink m α) :
    Except.map Account.ending <$> game.recount config sink = game.solve config sink := by
  rw [recount, solve, PayoffTable.recount, PayoffTable.solve]
  cases Path.start (.ofGame game) config with
  | error fault => exact map_pure _ _
  | ok outcome =>
      cases outcome with
      | error failure => exact map_pure _ _
      | ok path => exact Run.recount_follow sink config config.maxSteps [] (.ofPath path)

-- An account of a run that could start; no run of a game faults.
theorem Game.recount_course {m : Type → Type} [Monad m] [LawfulMonad m] {α : Type} [Scalar α] (game : Game)
    (reachable : game.Reachable) (config : Config α) (sink : StatusSink m α) (path : Path α)
    (begun : Path.start (.ofGame game) config = .ok (.ok path)) :
    Delivers (game.recount config sink) fun account =>
      Run.Course config config.maxSteps (.ofPath path) account.moments account.ending := by
  have valid := reachable_well_formed game reachable
  have complete : (PayoffTable.ofGame game : PayoffTable α).Complete := PayoffTable.of_game_complete game valid
  have words := Dimensions.words_of_count game.dimensions valid.addressable
  rw [recount, PayoffTable.recount, begun]
  refine delivers_imp _ _ _ (Run.recount_course _ complete words config sink _ [] _ (.start path begun)) ?_
  intro account told
  obtain ⟨moments, same, course⟩ := told
  rwa [same, List.nil_append]

end NormalForm
