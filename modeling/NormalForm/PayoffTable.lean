import NormalForm.Game.Outcomes

/-!
Payoff tables: what every player earns in every cell of a game, as scalars.
-/

set_option autoImplicit false

namespace NormalForm

structure PayoffTable (α : Type) where
  dims : Dimensions
  -- The payoffs of all players by cell; an empty cell pays zero.
  cells : Array (Option (List α))
  -- The largest size of a payoff in the game, to which tolerances are relative.
  scale : α

namespace PayoffTable

variable {α : Type} [Arithmetic α]

def ofGame (game : Game) : PayoffTable α :=
  { dims := game.dimensions
    cells := game.cells.map fun cell => do
      let place ← cell
      let outcome ← game.outcomes[place]?
      pure (outcome.payoffs.map Arithmetic.ofRat)
    scale := game.payoffScale }

-- What a player earns in a cell; a cell without an outcome pays zero.
def payoff (table : PayoffTable α) (index player : Nat) : Except Fault α :=
  match table.cells[index]? with
  | none => .error .bounds
  | some none => .ok (Arithmetic.ofRat 0)
  | some (some payoffs) => entry payoffs player

def strategyCount (table : PayoffTable α) (player : Nat) : Nat := (table.dims[player]?).getD 0

end PayoffTable

end NormalForm
