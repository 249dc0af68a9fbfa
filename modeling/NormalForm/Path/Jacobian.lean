import NormalForm.Path.Basic

/-!
The equations of the path and their derivatives. Every class has a mass equation, its probability
times the sum of all rank weights against the weights of its ranks, and every further member of a
class has an equation that it earns what the first member earns. The matrix has a row per equation, a
column per strategy and a last column for lambda.
-/

set_option autoImplicit false

namespace NormalForm.Path

variable {α : Type} [Arithmetic α]

def setEntry (row : List α) (column : Nat) (value : α) : Except Fault (List α) :=
  if column < row.length then .ok (row.set column value) else .error .bounds

-- The mass equation of a class that takes the ranks from `ranked` on.
def massRow (path : Path α) (player : Nat) (members : List Nat) (ranked : Nat) :
    Except Fault (List α) := do
  let n := path.table.strategyCount player
  let columns := path.table.dims.total
  let own ← path.profile.offset player
  let weights := rankWeights path.lambda n
  let weightsDerivative := Arithmetic.sum ((List.range n).map (rankDerivative path.lambda))
  let shares ← members.mapM (path.profile.probability player)
  let shareDerivative :=
    Arithmetic.sum ((List.range' ranked members.length).map (rankDerivative path.lambda))
  let row ← members.foldlM (fun row strategy => setEntry row (own + strategy) weights)
    (List.replicate (columns + 1) Arithmetic.zero)
  setEntry row columns (Arithmetic.sum shares * weightsDerivative - shareDerivative)

-- Derivatives, by one opponent's probabilities, of what `first` earns more than `strategy`.
def gapEntries (path : Path α) (player first strategy other : Nat) : Except Fault (List α) :=
  (List.range (path.table.strategyCount other)).mapM fun otherStrategy => do
    if other = player then .ok Arithmetic.zero
    else
      let upper ← path.profile.derivative player first other otherStrategy
      let lower ← path.profile.derivative player strategy other otherStrategy
      .ok (upper - lower)

-- The equation that two members of a class earn the same.
def gapRow (path : Path α) (player first strategy : Nat) : Except Fault (List α) := do
  let parts ← (List.range path.profile.players).mapM (path.gapEntries player first strategy)
  .ok (parts.flatten ++ [Arithmetic.zero])

def classRows (path : Path α) (player : Nat) (ranking : Ranking) (rank : Nat) :
    Except Fault (List (List α)) := do
  let members ← ranking.members rank
  let ranked ← ranking.rankOffset rank
  let mass ← path.massRow player members ranked
  let first ← Ranking.representative members
  let gaps ← members.tail.mapM (path.gapRow player first)
  .ok (mass :: gaps)

def playerRows (path : Path α) (player : Nat) : Except Fault (List (List α)) := do
  let ranking ← entry path.rankings player
  if ranking.strategyCount ≠ path.table.strategyCount player then .error .equationCount
  else
    let rows ← (List.range ranking.size).mapM (path.classRows player ranking)
    .ok rows.flatten

-- The matrix of derivatives; it must have one row per strategy.
def jacobian (path : Path α) : Except Fault (List (List α)) := do
  let rows ← (List.range path.rankings.length).mapM path.playerRows
  if rows.flatten.length = path.table.dims.total then .ok rows.flatten else .error .equationCount

end NormalForm.Path
