import NormalForm.Game.Build

/-!
Small games for examples and trials. Every strategy vector has an outcome of its own, labelled with
the numbers of its strategies.
-/

set_option autoImplicit false

namespace NormalForm

inductive Sample where
  -- Cooperate or defect; defecting is strictly dominant.
  | prisonersDilemma
  -- Every strategy is worth zero against the uniform profile.
  | matchingPennies
  -- The two strategies of player 0 pay the same against everything.
  | duplicateStrategy
  -- Player 0 has to change the order of the strategies once player 1 commits.
  | rankReversal
  -- The only equilibrium is fully mixed.
  | crossedPreferences
  -- A player scores when siding with the majority.
  | threePlayerMajority
  | singleStrategy
deriving DecidableEq, Repr

namespace Sample

def place (first : Nat) (game : Game) (row : (List Nat × List Int) × Nat) : Except Fault Game :=
  let ((strategies, payoffs), position) := row
  let label := String.join (strategies.map fun strategy => toString (strategy + 1))
  let handle : Handle := ⟨first + position⟩
  let exact := payoffs.map fun (value : Int) => (value : Rat)
  (game.addOutcome handle label exact).setOutcome strategies handle

def tabulate (first : Nat) (dims : Dimensions) (rows : List (List Nat × List Int)) :
    Except Fault Game := do
  let game ← Game.ofDimensions dims
  rows.zipIdx.foldlM (place first) game

-- The strategy that at least two of three players choose, scored for each of them.
def majorityRow (index : Nat) : List Nat × List Int :=
  let strategies := [index % 2, index / 2 % 2, index / 4 % 2]
  let majority := if 2 ≤ strategies.count 1 then 1 else 0
  (strategies, strategies.map fun strategy => if strategy = majority then 1 else 0)

def nameDilemma (game : Game) : Except Fault Game := do
  let game := game.setTitle "Prisoner's Dilemma"
  let game ← game.setStrategyName 0 0 "C"
  let game ← game.setStrategyName 0 1 "D"
  let game ← game.setStrategyName 1 0 "C"
  game.setStrategyName 1 1 "D"

def game (first : Nat) : Sample → Except Fault Game
  | prisonersDilemma => do
      let game ← tabulate first [2, 2]
        [([0, 0], [3, 3]), ([0, 1], [0, 5]), ([1, 0], [5, 0]), ([1, 1], [1, 1])]
      nameDilemma game
  | matchingPennies =>
      tabulate first [2, 2]
        [([0, 0], [1, -1]), ([0, 1], [-1, 1]), ([1, 0], [-1, 1]), ([1, 1], [1, -1])]
  | duplicateStrategy =>
      tabulate first [2, 2]
        [([0, 0], [1, 2]), ([0, 1], [1, 0]), ([1, 0], [1, 2]), ([1, 1], [1, 0])]
  | rankReversal =>
      tabulate first [2, 2]
        [([0, 0], [10, 0]), ([0, 1], [0, 1]), ([1, 0], [0, 0]), ([1, 1], [1, 1])]
  | crossedPreferences =>
      tabulate first [2, 2]
        [([0, 0], [2, 0]), ([1, 0], [0, 1]), ([0, 1], [0, 3]), ([1, 1], [1, 0])]
  | threePlayerMajority => tabulate first [2, 2, 2] ((List.range 8).map majorityRow)
  | singleStrategy => tabulate first [1, 1] [([0, 0], [1, 1])]

end Sample

end NormalForm
