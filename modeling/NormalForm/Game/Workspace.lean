import NormalForm.Game.Cells

/-!
Workspaces: several games side by side that draw their handles from one supply, so that a handle never
names two outcomes. A copy of a game shares the handles of the outcomes it was copied with.
-/

set_option autoImplicit false

namespace NormalForm

structure Workspace where
  games : Array Game
  nextKey : Nat

namespace Workspace

def empty : Workspace := ⟨#[], 1⟩

-- Adds a game whose outcomes have handles from `nextKey` on, in order.
def add (workspace : Workspace) (game : Game) : Workspace :=
  ⟨workspace.games.push game, workspace.nextKey + game.outcomes.size⟩

def game (workspace : Workspace) (index : Nat) : Except Fault Game :=
  entry workspace.games.toList index

def put (workspace : Workspace) (index : Nat) (game : Game) : Workspace :=
  { workspace with games := workspace.games.setIfInBounds index game }

def copy (workspace : Workspace) (index : Nat) : Except Fault Workspace := do
  let game ← workspace.game index
  .ok { workspace with games := workspace.games.push game.copy }

-- A new outcome for a game, with a handle not given out before.
def newOutcome (workspace : Workspace) (index : Nat) : Except Fault (Handle × Workspace) := do
  let game ← workspace.game index
  let handle : Handle := ⟨workspace.nextKey⟩
  let changed := workspace.put index (game.newOutcome handle)
  .ok (handle, { changed with nextKey := workspace.nextKey + 1 })

end Workspace

end NormalForm
