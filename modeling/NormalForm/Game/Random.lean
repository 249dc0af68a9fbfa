import NormalForm.Game.Build
import NormalForm.Random.Generator

/-!
Games with random payoffs, drawn from the decimals with a given number of places between zero and
one. A seed always gives the same game.
-/

set_option autoImplicit false

namespace NormalForm.Game

def maxRandomPlaces : Nat := 18

def random (first : Nat) (dims : Dimensions) (seed : UInt64) (places : Nat) : Except Fault Game := do
  if maxRandomPlaces < places then .error (.tooManyDecimals maxRandomPlaces)
  else
    let game ← ofDimensions dims
    let scale := Nat.pow 10 places
    let players := dims.length
    let generator := Random.Generator.ofSeed seed
    let table := (generator.draws scale.toUInt64 (game.cells.size * players)).toArray
    let payoffs (index : Nat) : List Rat :=
      (List.range players).map fun player => mkRat (table.getD (index * players + player) 0) scale
    .ok ((game.setTitle s!"Random game (seed {seed})").fill first payoffs).markSaved

end NormalForm.Game
