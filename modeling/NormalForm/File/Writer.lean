import NormalForm.Decimal.Numeral
import NormalForm.Game.Cells
import NormalForm.Text.Quoted

/-!
Writing game files: players with their strategy names, the comment, the outcomes with their payoffs,
and the outcome number of every cell. A file is written piece by piece to a sink that may fill up,
and each piece is made only when the sink has taken those before it.
-/

set_option autoImplicit false

namespace NormalForm

namespace File

-- Decimal places of payoffs when a writer is not told otherwise.
def defaultPrecision : Nat := 6

def payoffText (places : Nat) (value : Rat) : Except Fault String :=
  (Decimal.numeral value places).map String.ofList

def quotedPieces (texts : List String) : List String := texts.map fun text => Text.quote text ++ " "

def playerPieces (player : Player) : List String :=
  "\x7b " :: quotedPieces player.strategies ++ ["\x7d\n"]

def headPieces (game : Game) : List String :=
  ["NFG 1 R " ++ Text.quote game.title ++ " \x7b "] ++
    quotedPieces (game.players.map Player.name) ++
    ["\x7d\n\n\x7b "] ++
    game.players.flatMap playerPieces ++
    ["\x7d\n", Text.quote game.comment ++ "\n\n", "\x7b\n"]

def outcomePiece (places : Nat) (outcome : Outcome) : Except Fault String := do
  let payoffs ← outcome.payoffs.mapM (payoffText places)
  return "\x7b " ++ Text.quote outcome.label ++ " " ++ String.intercalate ", " payoffs ++ " \x7d\n"

def cellPieces (game : Game) : List String :=
  ["\x7d\n"] ++ game.cellIds.map (fun id => toString id ++ " ") ++ ["\n"]

-- The text of a file, in the pieces in which it is written, with a fault for one that cannot be.
def pieces (places : Nat) (game : Game) : List (Except Fault String) :=
  (headPieces game).map .ok ++ game.outcomes.toList.map (outcomePiece places) ++
    (cellPieces game).map .ok

def bytesOf (text : String) : List UInt8 := text.toUTF8.toList

-- A sink for bytes. It takes all of them, or as many as it has room for.
structure Sink where
  taken : Array UInt8
  room : Option Nat

namespace Sink

def empty (room : Option Nat) : Sink := ⟨#[], room⟩

-- Whether the sink took all of the bytes, and the sink with what it took.
def write (sink : Sink) (bytes : List UInt8) : Bool × Sink :=
  match sink.room with
  | none => (true, { sink with taken := sink.taken ++ bytes })
  | some room =>
      (bytes.length ≤ room,
        { taken := sink.taken ++ bytes.take room, room := some (room - bytes.length) })

-- Writes pieces up to the first that the sink does not take whole. A fault counts only when it is
-- reached.
def writeAll : Sink → List (Except Fault String) → Except Fault (Bool × Sink)
  | sink, [] => .ok (true, sink)
  | sink, piece :: rest => do
      match sink.write (bytesOf (← piece)) with
      | (true, sink) => sink.writeAll rest
      | (false, sink) => .ok (false, sink)

end Sink

structure Writer where
  sink : Sink
  precision : Nat

namespace Writer

def onto (sink : Sink) : Writer := ⟨sink, defaultPrecision⟩

def setPrecision (writer : Writer) (places : Nat) : Writer := { writer with precision := places }

def emit (writer : Writer) (game : Game) : Except Fault (Bool × Writer) := do
  let (done, sink) ← writer.sink.writeAll (pieces writer.precision game)
  return (done, { writer with sink })

-- Writes a game with `places` decimal places and goes back to the precision from before. The game
-- counts as saved only when all of it was taken.
def writeGame (writer : Writer) (places : Nat) (game : Game) :
    Except Fault (Bool × Writer × Game) := do
  let (done, written) ← (writer.setPrecision places).emit game
  return (done, written.setPrecision writer.precision, if done then game.markSaved else game)

end Writer

end File

def Game.toText (places : Nat) (game : Game) : Except Fault String := do
  return String.join (← (File.pieces places game).mapM id)

end NormalForm
