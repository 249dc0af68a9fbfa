import NormalForm.Cli.Host
import NormalForm.Cli.Report
import NormalForm.Cli.Request
import NormalForm.Cli.Sweep
import NormalForm.File.Reader
import NormalForm.File.Writer
import NormalForm.Solver.Settings

/-!
The program behind the command line, over a host that reads and writes files, prints, logs and tells
the time.
-/

set_option autoImplicit false

namespace NormalForm.Cli

variable {m : Type → Type} [Monad m]

def readGame (host : Host m) (file : String) : Program m Game := do
  match ← host.read file with
  | .missing => fail ("opening " ++ file) "no such file"
  | .unreadable cause => fail ("reading " ++ file) (ReadError.unreadable cause).message
  | .bytes bytes =>
      match Game.ofBytes 1 bytes with
      | .error error =>
          match error.fault? with
          | some fault => throw (.fault fault)
          | none => fail ("reading " ++ file) error.message
      | .ok game =>
          host.log (.read game)
          return game

def readSettings (host : Host m) : Option String → Program m (Config Float)
  | none => return .standard
  | some file => do
      match ← host.read file with
      | .missing => fail ("reading config " ++ file) "no such file"
      | .unreadable cause => fail ("reading config " ++ file) cause
      | .bytes bytes =>
          match String.fromUTF8? bytes with
          | none => fail ("reading config " ++ file) "not UTF-8 text"
          | some text =>
              match Config.ofText? text with
              | none => fail ("parsing config " ++ file) "not a settings file"
              | some config => return config

def deadlineSink (host : Host m) (deadline : Option Nat) : StatusSink m Float :=
  { poll := match deadline with
      | none => pure false
      | some deadline => (fun now => decide (deadline ≤ now)) <$> host.clock
    report := fun progress =>
      host.log ⟨.debug, percentText progress.fraction ++ " " ++ progress.message⟩ }

-- The time at which a run is to stop that may take so many seconds from now on.
def deadlineAt (host : Host m) : Option Float → Program m (Option Nat)
  | none => return none
  | some seconds => do
      let now ← host.clock
      let span ← checked (nanoseconds seconds)
      return some (now + span)

def solve (host : Host m) (file : String) (settings : Option String) (seconds : Option Float) :
    Program m Unit := do
  let game ← readGame host file
  let config ← readSettings host settings
  let deadline ← deadlineAt host seconds
  let opened ← host.clock
  let outcome ← (game.solve config (deadlineSink host deadline) : m (Except Fault (Ending Float)))
  let ending ← checked outcome
  let closed ← host.clock
  host.logEvents ending.events
  match ending.result with
  | .error error => fail ("solving " ++ file) error.message
  | .ok report => do
      let lines ← checked (reportLines game report (closed - opened))
      host.printLines lines

def random (host : Host m) (dims : Dimensions) (seed places : Nat) (out : Option String) :
    Program m Unit := do
  if Game.maxRandomPlaces < places then fail s!"at most {Game.maxRandomPlaces} decimals" ""
  let game ← checked (Game.random 1 dims seed.toUInt64 places)
  host.log (.generated dims seed.toUInt64)
  let text ← checked (game.toText places)
  match out with
  | none =>
      host.print text
      host.log (.wrote game)
  | some path =>
      match ← host.write path text with
      | .notCreated cause => fail ("creating " ++ path) cause
      | .notWritten cause => fail ("writing " ++ path) cause
      | .done =>
          host.log (.wrote game)
          host.log ⟨.info, "wrote " ++ path⟩

def sweep (host : Host m) (dims : Dimensions) (count seed : Nat) (settings : Option String) :
    Program m Unit := do
  let config ← readSettings host settings
  let opened ← host.clock
  let runs ← checked (sweepRuns config dims count seed)
  let closed ← host.clock
  for (_, events) in runs do
    host.logEvents events
  for ((result, _), index) in runs.zipIdx do
    match sweepRecord? (seed + index) result with
    | some record => host.log record
    | none => pure ()
  host.log ⟨.info, Record.columns ("sweep " ++ Text.bracketed dims ++ s!" x {count}")
    (spanText (closed - opened))⟩
  host.log ⟨.info, ((runs.map Prod.fst).foldl Tally.add Tally.empty).summary⟩

def execute (host : Host m) : Command → Program m Unit
  | .solve file settings seconds => solve host file settings seconds
  | .random dims seed places out => random host dims seed places out
  | .sweep dims count seed settings => sweep host dims count seed settings

def usageText : String :=
  "Usage: normal-form [-v] <command>\n\n" ++
    "  solve <file> [--config <file>] [--deadline <seconds>]\n" ++
    "  random --dims <n>... [--seed <n>] [--decimals <n>] [--out <file>]\n" ++
    "  sweep --dims <n>... [--count <n>] [--seed <n>] [--config <file>]\n"

def versionText : String := "normal-form 0.1.0\n"

def perform (host : Host m) : Request → m Exit
  | .help => do
      host.print usageText
      return .success
  | .version => do
      host.print versionText
      return .success
  | .run verbose command => do
      match ← (execute (host.leveled verbose) command).run with
      | .ok () => return .success
      | .error exit => return exit

def run (host : Host m) (args : List String) : m Exit :=
  match Request.ofArgs? false args with
  | none => pure .usage
  | some request => perform host request

end NormalForm.Cli
