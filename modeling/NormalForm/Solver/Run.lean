import NormalForm.Path.Repair

/-!
Runs along the path, from the uniform profile until lambda reaches the floor. Before every step whose
number is a multiple of the report interval the sink is asked whether to stop, and if it lets the run
go on it is told how far lambda has come down.
-/

set_option autoImplicit false

namespace NormalForm

structure Progress (α : Type) where
  -- One minus the lowest lambda so far, between zero and one.
  fraction : α
  lambda : α

structure StatusSink (m : Type → Type) (α : Type) where
  poll : m Bool
  report : Progress α → m Unit

def StatusSink.silent {m : Type → Type} [Monad m] {α : Type} : StatusSink m α :=
  { poll := pure false, report := fun _ => pure () }

structure Report (α : Type) where
  equilibria : List (Mixed α)
  termination : Termination
  steps : Nat
  lambda : α
  merges : Nat
  splits : Nat

structure Run (α : Type) where
  path : Path α
  steps : Nat
  lowest : α
  events : List (Event α)

structure Ending (α : Type) where
  result : Except (SolveError α) (Report α)
  events : List (Event α)

namespace Run

variable {α : Type} [Scalar α]

def ofPath (path : Path α) : Run α :=
  { path, steps := 0, lowest := path.lambda, events := [.starting path.table.dims] }

def progress (run : Run α) : Progress α :=
  { fraction := Arithmetic.clamp Arithmetic.zero Arithmetic.one (Arithmetic.one - run.lowest)
    lambda := run.path.lambda }

def reportWith (run : Run α) (termination : Termination) (equilibria : List (Mixed α)) : Report α :=
  { equilibria
    termination
    steps := run.steps
    lambda := run.path.lambda
    merges := run.path.merges
    splits := run.path.splits }

def aboveFloor (run : Run α) (config : Config α) : Bool :=
  Arithmetic.lt config.lambdaFloor run.path.lambda

def finish (run : Run α) (config : Config α) : Ending α :=
  let termination :=
    if Arithmetic.le run.path.lambda config.lambdaFloor then .converged else .stepBudget
  let path := run.path
  { result := .ok (run.reportWith termination [path.profile])
    events := run.events ++
      [.finished termination run.steps path.lambda path.merges path.splits] }

def cancel (run : Run α) : Ending α :=
  { result := .ok (run.reportWith .cancelled [])
    events := run.events ++ [.cancelled (run.steps + 1) run.path.lambda] }

def isDue (run : Run α) (config : Config α) : Bool :=
  0 < config.reportInterval && (run.steps + 1) % config.reportInterval == 0

-- Attends to the sink if that is due; says whether the run is to stop.
def attend {m : Type → Type} [Monad m] (sink : StatusSink m α) (config : Config α) (run : Run α) :
    m Bool :=
  if run.isDue config then
    sink.poll >>= fun stop =>
      if stop then pure true else sink.report run.progress >>= fun _ => pure false
  else pure false

def step (config : Config α) (run : Run α) : Except Fault (Except (Ending α) (Run α)) := do
  let attempt ← run.path.advance (run.steps + 1) config
  let events := run.events ++ attempt.events
  match attempt.failure with
  | some failure => .ok (.error { result := .error failure, events })
  | none =>
      .ok (.ok
        { path := attempt.path
          steps := run.steps + 1
          lowest := Arithmetic.min run.lowest attempt.path.lambda
          events })

-- Follows the path for at most `budget` more steps.
def follow {m : Type → Type} [Monad m] (sink : StatusSink m α) (config : Config α) :
    Nat → Run α → m (Except Fault (Ending α))
  | 0, run => pure (.ok (run.finish config))
  | budget + 1, run =>
      if run.aboveFloor config then
        run.attend sink config >>= fun stop =>
          if stop then pure (.ok run.cancel)
          else
            match run.step config with
            | .error fault => pure (.error fault)
            | .ok (.error ending) => pure (.ok ending)
            | .ok (.ok next) => follow sink config budget next
      else pure (.ok (run.finish config))

end Run

def PayoffTable.solve {m : Type → Type} [Monad m] {α : Type} [Scalar α] (table : PayoffTable α)
    (config : Config α) (sink : StatusSink m α) : m (Except Fault (Ending α)) :=
  match Path.start table config with
  | .error fault => pure (.error fault)
  | .ok (.error failure) => pure (.ok { result := .error failure, events := [] })
  | .ok (.ok path) => Run.follow sink config config.maxSteps (Run.ofPath path)

def Game.solve {m : Type → Type} [Monad m] {α : Type} [Scalar α] (game : Game) (config : Config α)
    (sink : StatusSink m α) : m (Except Fault (Ending α)) :=
  (PayoffTable.ofGame game).solve config sink

end NormalForm
