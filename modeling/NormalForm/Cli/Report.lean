import NormalForm.Game.Basic
import NormalForm.Record

/-!
The printed account of a run: how it ended, and the profile it ended with.
-/

set_option autoImplicit false

namespace NormalForm.Cli

def percentText (fraction : Float) : String :=
  Text.flushRight 6 (Binary64.fixed 2 (fraction * 100.0)) ++ "%"

-- A span of nanoseconds in the largest unit that it fills, with two decimals.
def spanText (nanos : Nat) : String :=
  let units (unit : Nat) (name : String) : String :=
    let hundredths := Binary64.roundQuotient (nanos * 100) unit
    toString (hundredths / 100) ++ "." ++ String.ofList (Decimal.padded 2 (hundredths % 100)) ++ name
  if Nat.pow 10 9 ≤ nanos then units (Nat.pow 10 9) "s"
  else if Nat.pow 10 6 ≤ nanos then units (Nat.pow 10 6) "ms"
  else if Nat.pow 10 3 ≤ nanos then units (Nat.pow 10 3) "µs"
  else units 1 "ns"

-- A span of seconds in nanoseconds, to the nearest. Spans below zero or beyond the clock are
-- refused.
def nanoseconds (seconds : Float) : Except Fault Nat :=
  if seconds < 0.0 then .error .bounds
  else
    match Binary64.size seconds with
    | .finite mantissa exponent =>
        let nanos := Binary64.roundQuotient (mantissa * Nat.pow 2 exponent * Nat.pow 10 9) (Nat.pow 2 1074)
        if nanos < Nat.pow 2 63 * Nat.pow 10 9 then .ok nanos else .error .overflow
    | _ => .error .overflow

def strategyText (entry : String × Float) : String := entry.1 ++ "=" ++ sixPlaces entry.2

def playerLine (profile : Mixed Float) (player : Player × Nat) : Except Fault String := do
  let probabilities ← profile.ofPlayer player.2
  let entries := (player.1.strategies.zip probabilities).map strategyText
  .ok ("  " ++ player.1.name ++ ": " ++ String.intercalate " " entries)

def profileLines (game : Game) (profile : Mixed Float) : Except Fault (List String) := do
  let players ← game.players.zipIdx.mapM (playerLine profile)
  let regret ← profile.maxRegret
  .ok ([""] ++ players ++ ["Max regret: " ++ sixPlaces regret])

def reportLines (game : Game) (report : Report Float) (nanos : Nat) : Except Fault (List String) := do
  let profiles ← report.equilibria.mapM (profileLines game)
  .ok
    (["Game: " ++ game.title,
      "Termination: " ++ report.termination.name,
      s!"Steps: {report.steps}",
      "Lambda: " ++ sixPlaces report.lambda,
      s!"Merges / splits: {report.merges} / {report.splits}",
      "Time: " ++ spanText nanos] ++ profiles.flatten)

end NormalForm.Cli
