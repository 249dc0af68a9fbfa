import NormalForm.Mixed
import NormalForm.Ranking
import NormalForm.Solver.Config

/-!
A path of perturbed profiles. A strategy of rank `r` carries weight `lambda ^ r`, so that at lambda
one every player mixes uniformly, and as lambda falls the best class takes all. Strategies of one
class share the weight of their ranks freely but must earn the same.

The state of a walk along the path: profile, lambda, the orientation of the walk, the rankings of all
players, and the change of rankings that the next step has to head away from.
-/

set_option autoImplicit false

namespace NormalForm

-- What changed the rankings last, as far as the next direction depends on it.
inductive Restructure where
  -- The start of the path: lambda must fall.
  | start
  -- The probability of `upper`, the better of two merged classes, must fall.
  | merged (player : Nat) (upper : List Nat)
  -- The upper of two new classes must pull ahead of the lower, each by its first member.
  | parted (player upper lower : Nat)
deriving DecidableEq, Repr

inductive SolveError (α : Type) where
  | tiedPayoffs (player first second : Nat) (value : α)
  -- No direction: every cofactor vanished or overflowed.
  | degenerate (step : Nat) (lambda : α)
  -- Lambda above one or a probability below zero, by more than the tolerance.
  | infeasible (step : Nat) (lambda lowest : α)
  | emptyPlayer (player : Nat)
  | noPlayers
deriving DecidableEq, Repr

inductive Termination where
  | converged
  | stepBudget
  | cancelled
deriving DecidableEq, Repr

inductive Event (α : Type) where
  | starting (dims : List Nat)
  | reversed (step : Nat) (change : Restructure)
  | merged (step player rank : Nat) (lambda : α)
  | parted (step player rank leaders members : Nat) (lambda : α)
  | failed (error : SolveError α)
  | cancelled (step : Nat) (lambda : α)
  | finished (termination : Termination) (steps : Nat) (lambda : α) (merges splits : Nat)

structure Path (α : Type) where
  profile : Mixed α
  lambda : α
  orientation : α
  rankings : List Ranking
  pending : Option Restructure
  merges : Nat
  splits : Nat

namespace Path

variable {α : Type} [Arithmetic α]

def table (path : Path α) : PayoffTable α := path.profile.table

def rankWeights (lambda : α) (n : Nat) : α :=
  Arithmetic.sum ((List.range n).map fun r => Arithmetic.power lambda r)

def rankDerivative (lambda : α) (r : Nat) : α :=
  if r = 0 then Arithmetic.zero else Arithmetic.ofNat r * Arithmetic.power lambda (r - 1)

def emptyPlayer? (dims : Dimensions) : Option Nat := dims.findIdx? fun count => count == 0

def initialRanking (profile : Mixed α) (tolerance : α) (player : Nat) :
    Except Fault (Except (SolveError α) Ranking) := do
  let values ← (List.range (profile.table.strategyCount player)).mapM (profile.strategyValue player)
  match ← Ranking.byPayoff values tolerance with
  | .ok ranking => .ok (.ok ranking)
  | .error (first, second) => do
      let value ← entry values first
      .ok (.error (.tiedPayoffs player first second value))

-- The rankings of players in order, up to the first that cannot be ranked.
def initialRankings (profile : Mixed α) (tolerance : α) :
    List Nat → Except Fault (Except (SolveError α) (List Ranking))
  | [] => .ok (.ok [])
  | player :: rest => do
      match ← initialRanking profile tolerance player with
      | .error failure => .ok (.error failure)
      | .ok ranking =>
          match ← initialRankings profile tolerance rest with
          | .error failure => .ok (.error failure)
          | .ok rankings => .ok (.ok (ranking :: rankings))

-- The uniform profile at lambda one, strategies strictly ranked by payoff.
def start (table : PayoffTable α) (config : Config α) :
    Except Fault (Except (SolveError α) (Path α)) := do
  if table.dims = [] then .ok (.error .noPlayers)
  else
    match emptyPlayer? table.dims with
    | some player => .ok (.error (.emptyPlayer player))
    | none =>
        let profile := Mixed.uniform table
        let tolerance := config.tieTolerance * Arithmetic.max table.scale Arithmetic.one
        match ← initialRankings profile tolerance (List.range table.dims.length) with
        | .error failure => .ok (.error failure)
        | .ok rankings =>
            .ok (.ok
              { profile
                lambda := Arithmetic.one
                orientation := Arithmetic.one
                rankings
                pending := some .start
                merges := 0
                splits := 0 })

end Path

end NormalForm
