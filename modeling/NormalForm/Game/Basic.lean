import NormalForm.Binary64.Nearest
import NormalForm.Profile

/-!
Games in normal form. Players own their strategies and outcomes own payoffs; every strategy vector
has a cell that may point at an outcome. Callers name outcomes by handles, which stay the same while
outcomes move to other places.

Every change of payoffs or structure raises the revision and marks the game unsaved.
-/

set_option autoImplicit false

namespace NormalForm

structure Handle where
  key : Nat
deriving DecidableEq, Repr

-- A label and one payoff per player, each with its nearest floating-point number. The id counts the
-- outcomes of a game from one.
structure Outcome where
  handle : Handle
  id : Nat
  label : String
  payoffs : List Rat
  floats : List Float

structure Player where
  name : String
  strategies : List String
deriving DecidableEq, Repr

structure Game where
  title : String
  comment : String
  players : List Player
  outcomes : Array Outcome
  -- The place in `outcomes` of the outcome of each strategy vector.
  cells : Array (Option Nat)
  revision : Nat
  -- The revision at which the floating-point payoffs were last refreshed.
  refreshedAt : Option Nat
  unsaved : Bool

namespace Outcome

def blank (handle : Handle) (id players : Nat) : Outcome :=
  { handle
    id
    label := ""
    payoffs := List.replicate players 0
    floats := List.replicate players 0.0 }

def ofPayoffs (handle : Handle) (id : Nat) (label : String) (payoffs : List Rat) : Outcome :=
  { handle, id, label, payoffs, floats := payoffs.map Binary64.nearest }

def setPayoff (outcome : Outcome) (player : Nat) (value : Rat) : Outcome :=
  { outcome with
    payoffs := outcome.payoffs.set player value
    floats := outcome.floats.set player (Binary64.nearest value) }

def refresh (outcome : Outcome) : Outcome :=
  { outcome with floats := outcome.payoffs.map Binary64.nearest }

end Outcome

def numberNames (count : Nat) : List String :=
  (List.range count).map fun index => toString (index + 1)

def Player.numbered (number strategies : Nat) : Player :=
  { name := toString number, strategies := numberNames strategies }

namespace Game

-- The game with numbered players and strategies, no outcomes and empty cells.
def blank (dims : Dimensions) : Game :=
  { title := "UNTITLED"
    comment := ""
    players := dims.zipIdx.map fun (strategies, player) => .numbered (player + 1) strategies
    outcomes := #[]
    cells := Array.replicate dims.count none
    revision := 0
    refreshedAt := none
    unsaved := false }

-- The blank game; its tables must have a size that can be addressed.
def ofDimensions (dims : Dimensions) : Except Fault Game := dims.allotted.map fun _ => blank dims

def dimensions (game : Game) : Dimensions := game.players.map fun player => player.strategies.length

-- The number of strategies of a player, zero if there is no such player.
def strategyCount (game : Game) (player : Nat) : Nat := (game.dimensions[player]?).getD 0

def profileLength (game : Game) : Nat := game.dimensions.total

def player (game : Game) (player : Nat) : Except Fault Player := entry game.players player

def touch (game : Game) : Game := { game with revision := game.revision + 1, unsaved := true }

def setTitle (game : Game) (title : String) : Game := { game with title }.touch

def setComment (game : Game) (comment : String) : Game := { game with comment }.touch

def markSaved (game : Game) : Game := { game with unsaved := false }

-- An independent copy, saved and at revision zero; its outcomes keep their handles.
def copy (game : Game) : Game := { game with revision := 0, refreshedAt := none, unsaved := false }

def setPlayerName (game : Game) (player : Nat) (name : String) : Except Fault Game := do
  let owner ← entry game.players player
  .ok { game with players := game.players.set player { owner with name } }

def setStrategyName (game : Game) (player strategy : Nat) (name : String) : Except Fault Game := do
  let owner ← entry game.players player
  let _ ← entry owner.strategies strategy
  let strategies := owner.strategies.set strategy name
  .ok { game with players := game.players.set player { owner with strategies } }

end Game

end NormalForm
