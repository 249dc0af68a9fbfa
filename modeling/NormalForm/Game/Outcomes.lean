import NormalForm.Game.Basic
import NormalForm.Scalar

/-!
The outcomes of a game: creation, deletion and payoffs. Outcomes are numbered from one by their
place; deleting one empties the cells that point at it, moves the later ones up and numbers them anew.
-/

set_option autoImplicit false

namespace NormalForm.Game

def place? (game : Game) (handle : Handle) : Option Nat :=
  game.outcomes.toList.findIdx? fun outcome => outcome.handle == handle

def livePlace (game : Game) (handle : Handle) : Except Fault Nat :=
  match game.place? handle with
  | some place => .ok place
  | none => .error .foreignOutcome

def outcome? (game : Game) (handle : Handle) : Option Outcome := do
  let place ← game.place? handle
  game.outcomes[place]?

def outcomeId? (game : Game) (handle : Handle) : Option Nat :=
  (game.place? handle).map fun place => place + 1

def handleOfId? (game : Game) (id : Nat) : Option Handle :=
  match id with
  | 0 => none
  | place + 1 => (game.outcomes[place]?).map Outcome.handle

-- A new last outcome with payoffs zero. The handle must not name an outcome of any game.
def newOutcome (game : Game) (handle : Handle) : Game :=
  let outcome := Outcome.blank handle (game.outcomes.size + 1) game.players.length
  { game with outcomes := game.outcomes.push outcome }.touch

-- A cell after the outcome at `place` is gone.
def cellWithout (place : Nat) : Option Nat → Option Nat
  | none => none
  | some other =>
      if other = place then none
      else if place < other then some (other - 1)
      else some other

def renumber (outcomes : Array Outcome) : Array Outcome :=
  outcomes.mapIdx fun place outcome => { outcome with id := place + 1 }

-- Whether there was an outcome to delete, and the game without it.
def deleteOutcome (game : Game) (handle : Handle) : Bool × Game :=
  match game.place? handle with
  | none => (false, game)
  | some place =>
      (true,
        { game with
          outcomes := renumber (game.outcomes.eraseIdxIfInBounds place)
          cells := game.cells.map (cellWithout place) }.touch)

def setLabel (game : Game) (handle : Handle) (label : String) : Game :=
  match game.place? handle with
  | none => game
  | some place =>
      { game with outcomes := game.outcomes.modify place fun outcome => { outcome with label } }

def setPayoff (game : Game) (handle : Handle) (player : Nat) (value : Rat) : Except Fault Game := do
  if player < game.players.length then
    let place ← game.livePlace handle
    .ok { game with
      outcomes := game.outcomes.modify place fun outcome => outcome.setPayoff player value }.touch
  else .error (.unknownPlayer player)

-- The exact payoff of an outcome, zero if the outcome is gone.
def payoff (game : Game) (handle : Handle) (player : Nat) : Except Fault Rat :=
  match game.outcome? handle with
  | some outcome => entry outcome.payoffs player
  | none => .ok 0

-- Refreshes the floating-point payoffs unless that was done at this revision; says whether it was
-- done now.
def refresh (game : Game) : Bool × Game :=
  if game.refreshedAt = some game.revision then (false, game)
  else
    (true,
      { game with
        outcomes := game.outcomes.map Outcome.refresh
        refreshedAt := some game.revision })

def payoffScale {α : Type} [Arithmetic α] (game : Game) : α :=
  Arithmetic.largest <| game.outcomes.toList.flatMap fun outcome =>
    outcome.payoffs.map fun value => Arithmetic.abs (Arithmetic.ofRat value)

end NormalForm.Game
