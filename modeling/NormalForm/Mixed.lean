import NormalForm.PayoffTable
import NormalForm.Profile

/-!
Mixed profiles: a probability for every strategy of every player, kept in one vector, player by
player. Expected payoffs are sums over the pure profiles in which some players are held fixed.
-/

set_option autoImplicit false

namespace NormalForm

structure Mixed (α : Type) where
  table : PayoffTable α
  probabilities : List α

namespace Mixed

variable {α : Type} [Arithmetic α]

def uniform (table : PayoffTable α) : Mixed α :=
  { table
    probabilities := table.dims.flatMap fun count =>
      List.replicate count (Arithmetic.one / Arithmetic.ofNat count) }

def ofVector (table : PayoffTable α) (probabilities : List α) : Except Fault (Mixed α) :=
  if probabilities.length = table.dims.total then .ok { table, probabilities }
  else .error .mixedLength

def players (profile : Mixed α) : Nat := profile.table.dims.length

def offset (profile : Mixed α) (player : Nat) : Except Fault Nat :=
  if player < profile.players then .ok (profile.table.dims.offset player) else .error .bounds

def probability (profile : Mixed α) (player strategy : Nat) : Except Fault α :=
  if strategy < profile.table.strategyCount player then
    entry profile.probabilities (profile.table.dims.offset player + strategy)
  else .error (.unknownStrategy strategy)

def setProbability (profile : Mixed α) (player strategy : Nat) (value : α) :
    Except Fault (Mixed α) :=
  if strategy < profile.table.strategyCount player then
    let place := profile.table.dims.offset player + strategy
    .ok { profile with probabilities := profile.probabilities.set place value }
  else .error (.unknownStrategy strategy)

def ofPlayer (profile : Mixed α) (player : Nat) : Except Fault (List α) := do
  let start ← profile.offset player
  .ok ((profile.probabilities.drop start).take (profile.table.strategyCount player))

def total (profile : Mixed α) (player : Nat) : Except Fault α := do
  let probabilities ← profile.ofPlayer player
  .ok (Arithmetic.sum probabilities)

def add (profile : Mixed α) (step : List α) : Except Fault (Mixed α) :=
  if step.length = profile.probabilities.length then
    .ok { profile with probabilities := List.zipWith (· + ·) profile.probabilities step }
  else .error .stepLength

-- The probabilities of what the players from `player` on play, apart from those who are held.
def factors (profile : Mixed α) (held : List Nat) : Nat → List Nat → Except Fault (List α)
  | _, [] => .ok []
  | player, strategy :: strategies =>
      if player ∈ held then profile.factors held (player + 1) strategies
      else do
        let factor ← profile.probability player strategy
        let factors ← profile.factors held (player + 1) strategies
        .ok (factor :: factors)

-- What a profile adds to the payoff of a player while some players are held. One of weight zero adds
-- zero, whatever it pays.
def contribution (profile : Mixed α) (player : Nat) (held : List Nat) (played : Profile) : Except Fault α := do
  let factors ← profile.factors held 0 played.strategies
  let weight := Arithmetic.product factors
  if Arithmetic.same weight Arithmetic.zero then .ok Arithmetic.zero
  else
    let payoff ← profile.table.payoff played.index player
    .ok (weight * payoff)

def conditional (profile : Mixed α) (player : Nat) (fixed : List (Nat × Nat)) : Except Fault α := do
  let played ← profile.table.dims.contingencies fixed
  let terms ← played.mapM (profile.contribution player (fixed.map Prod.fst))
  .ok (Arithmetic.sum terms)

def strategyValue (profile : Mixed α) (player strategy : Nat) : Except Fault α :=
  profile.conditional player [(player, strategy)]

-- The derivative of the value of a strategy by the probability of a strategy of another player; zero
-- if that is the player itself.
def derivative (profile : Mixed α) (player strategy other otherStrategy : Nat) : Except Fault α :=
  if other = player then .ok Arithmetic.zero
  else profile.conditional player [(player, strategy), (other, otherStrategy)]

def payoff (profile : Mixed α) (player : Nat) : Except Fault α := profile.conditional player []

def regret (profile : Mixed α) (player : Nat) : Except Fault α := do
  let current ← profile.payoff player
  let values ← (List.range (profile.table.strategyCount player)).mapM (profile.strategyValue player)
  .ok (Arithmetic.largest (values.map fun value => value - current))

def maxRegret (profile : Mixed α) : Except Fault α := do
  let regrets ← (List.range profile.players).mapM profile.regret
  .ok (Arithmetic.largest regrets)

end Mixed

end NormalForm
