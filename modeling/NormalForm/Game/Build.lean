import NormalForm.File.ReadError
import NormalForm.Game.Cells

/-!
Games loaded in bulk: outcomes with their payoffs, and tables with one outcome per cell. The outcomes
of a load get consecutive handles, of which the caller gives the first key.
-/

set_option autoImplicit false

namespace NormalForm.Game

-- A new last outcome with its payoffs, which counts as one change and one more per payoff.
def addOutcome (game : Game) (handle : Handle) (label : String) (payoffs : List Rat) : Game :=
  { game with
    outcomes := game.outcomes.push (.ofPayoffs handle (game.outcomes.size + 1) label payoffs)
    revision := game.revision + 1 + payoffs.length
    unsaved := true }

def fillCell (first : Nat) (payoffs : Nat → List Rat) (game : Game) (index : Nat) : Game :=
  let place := game.outcomes.size
  let game := game.addOutcome ⟨first + index⟩ "" (payoffs index)
  { game with cells := game.cells.setIfInBounds index (some place) }

def fill (game : Game) (first : Nat) (payoffs : Nat → List Rat) : Game :=
  (List.range game.cells.size).foldl (fillCell first payoffs) game

-- A game from one row of payoffs per cell and one entry per player in each row.
def ofRows (first : Nat) (dims : Dimensions) (rows : List (List Rat)) :
    Except Fault (Except ReadError Game) := do
  let game ← ofDimensions dims
  if rows.length ≠ game.cells.size then
    .ok (.error (.shape game.cells.size rows.length))
  else
    match rows.find? fun row => row.length ≠ dims.length with
    | some row => .ok (.error (.shape dims.length row.length))
    | none =>
        let table := rows.toArray
        .ok (.ok (game.fill first fun index => table.getD index []).markSaved)

end NormalForm.Game
