import NormalForm.Binary64.Fixed
import NormalForm.Binary64.Scalar
import NormalForm.Binary64.Shortest
import NormalForm.Game.Cells
import NormalForm.Solver.Run
import NormalForm.Text.Column

/-!
Records of what the library does, and the texts of solver errors and progress.
-/

set_option autoImplicit false

namespace NormalForm

inductive Level where
  | debug
  | info
  | warn
deriving DecidableEq, Repr

def Level.name : Level → String
  | debug => "DEBUG"
  | info => "INFO"
  | warn => "WARN"

structure Record where
  level : Level
  text : String
deriving DecidableEq, Repr

def sixPlaces (x : Float) : String := Binary64.fixed 6 x

def SolveError.message : SolveError Float → String
  | .tiedPayoffs player first second value =>
      s!"player {player}: strategies {first} and {second} tie at " ++ Binary64.shortest value ++
        " in the initial ranking"
  | .degenerate step lambda =>
      s!"degenerate Jacobian at step {step} (lambda = " ++ Binary64.shortest lambda ++ ")"
  | .infeasible step lambda lowest =>
      s!"path left the feasible region at step {step} (lambda = " ++ Binary64.shortest lambda ++
        ", lowest probability = " ++ Binary64.shortest lowest ++ ")"
  | .emptyPlayer player => s!"player {player} has no strategies"
  | .noPlayers => "game has no players"

def Termination.name : Termination → String
  | converged => "Converged"
  | stepBudget => "StepBudget"
  | cancelled => "Cancelled"

def Restructure.describe : Restructure → String
  | start => "Start"
  | merged player upper =>
      s!"Merged \x7b player: {player}, upper: " ++ Text.bracketed upper ++ " \x7d"
  | parted player upper lower =>
      s!"Split \x7b player: {player}, upper: {upper}, lower: {lower} \x7d"

def Progress.message (progress : Progress Float) : String :=
  "Lambda = " ++ Binary64.shortest progress.lambda

namespace Record

def stepLabel (step : Nat) : String := "step " ++ Text.flushRight 6 (toString step) ++ ": "

def columns (left right : String) : String := Text.flushLeft 32 left ++ Text.flushLeft 32 right

-- The record of an event; errors known before a run starts have none.
def ofEvent : Event Float → Option Record
  | .starting dims =>
      some ⟨.info, columns "starting yamamoto" (Text.bracketed dims ++ " strategies")⟩
  | .reversed step change =>
      some ⟨.debug, stepLabel step ++ "reversed predictor after " ++ change.describe⟩
  | .merged step player rank lambda =>
      some ⟨.debug, stepLabel step ++
        s!"player {player} merged classes {rank} and {rank + 1} (lambda = " ++
        sixPlaces lambda ++ ")"⟩
  | .parted step player rank leaders members lambda =>
      some ⟨.debug, stepLabel step ++
        s!"player {player} split class {rank} after {leaders} of {members} members (lambda = " ++
        sixPlaces lambda ++ ")"⟩
  | .failed (.degenerate step lambda) =>
      some ⟨.warn, s!"degenerate jacobian at step {step} (lambda = " ++ sixPlaces lambda ++ ")"⟩
  | .failed (.infeasible step lambda lowest) =>
      some ⟨.warn, s!"path left the feasible region at step {step} (lambda = " ++ sixPlaces lambda ++
        ", lowest probability = " ++ sixPlaces lowest ++ ")"⟩
  | .failed _ => none
  | .cancelled step lambda =>
      some ⟨.info, s!"cancelled before step {step} (lambda = " ++ sixPlaces lambda ++ ")"⟩
  | .finished termination steps lambda merges splits =>
      some ⟨.info, columns ("yamamoto " ++ termination.name)
        (s!"{steps} steps, lambda = " ++ sixPlaces lambda ++ s!", {merges} merges, {splits} splits")⟩

def refreshed (game : Game) : Record :=
  ⟨.debug, s!"refreshed payoff mirrors for {game.outcomes.size} outcomes " ++
    s!"at revision {game.revision}"⟩

def wrote (game : Game) : Record :=
  ⟨.debug, s!"wrote game \"{game.title}\" " ++
    s!"({game.outcomes.size} outcomes, {game.cells.size} profiles)"⟩

def read (game : Game) : Record :=
  ⟨.debug, s!"read game \"{game.title}\" with dimensions " ++ Text.bracketed game.dimensions ++
    s!" and {game.outcomes.size} outcomes"⟩

def generated (dims : Dimensions) (seed : UInt64) : Record :=
  ⟨.debug, "generated random game " ++ Text.bracketed dims ++ s!" from seed {seed}"⟩

end Record

end NormalForm
