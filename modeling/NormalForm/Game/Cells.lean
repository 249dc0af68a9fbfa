import NormalForm.Game.Outcomes

/-!
The cells of a game, reached by strategy vector, by profile or by index. An empty cell pays zero.
-/

set_option autoImplicit false

namespace NormalForm.Game

def flatIndex (game : Game) (strategies : List Nat) : Except Fault Nat :=
  game.dimensions.locate strategies

def cell (game : Game) (index : Nat) : Except Fault (Option Nat) :=
  match game.cells[index]? with
  | some cell => .ok cell
  | none => .error .bounds

-- The cell that points at an outcome, which must be live.
def target (game : Game) : Option Handle → Except Fault (Option Nat)
  | some handle => (game.livePlace handle).map some
  | none => .ok none

-- Writes a cell; the revision stays, for callers that load many cells at once.
def setOutcomeAt (game : Game) (index : Nat) (outcome : Option Handle) : Except Fault Game := do
  if index < game.cells.size then
    let target ← game.target outcome
    .ok { game with cells := game.cells.setIfInBounds index target }
  else .error (.unknownCell index)

def setOutcome (game : Game) (strategies : List Nat) (outcome : Option Handle) :
    Except Fault Game := do
  let index ← game.flatIndex strategies
  (game.setOutcomeAt index outcome).map touch

def setProfileOutcome (game : Game) (profile : Profile) (outcome : Option Handle) :
    Except Fault Game :=
  (game.setOutcomeAt profile.index outcome).map touch

def outcomeAt (game : Game) (index : Nat) : Except Fault (Option Handle) := do
  match ← game.cell index with
  | none => .ok none
  | some place => (entry game.outcomes.toList place).map fun outcome => some outcome.handle

def getOutcome (game : Game) (strategies : List Nat) : Except Fault (Option Handle) := do
  let index ← game.flatIndex strategies
  game.outcomeAt index

def profileOutcome (game : Game) (profile : Profile) : Except Fault (Option Handle) :=
  game.outcomeAt profile.index

def outcomeIdAt (game : Game) (index : Nat) : Except Fault Nat := do
  match ← game.cell index with
  | none => .ok 0
  | some place => .ok (place + 1)

def floatPayoffAt (game : Game) (index player : Nat) : Except Fault Float := do
  match ← game.cell index with
  | none => .ok 0.0
  | some place =>
      let outcome ← entry game.outcomes.toList place
      entry outcome.floats player

def payoffAt (game : Game) (index player : Nat) : Except Fault Rat := do
  match ← game.cell index with
  | none => .ok 0
  | some place =>
      let outcome ← entry game.outcomes.toList place
      entry outcome.payoffs player

-- The numbers of the outcomes of all cells, zero for an empty cell.
def cellIds (game : Game) : List Nat :=
  game.cells.toList.map fun cell => match cell with
    | none => 0
    | some place => place + 1

end NormalForm.Game
