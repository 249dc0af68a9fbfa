import NormalForm.Cli.Program

/-!
The command line.
-/

set_option autoImplicit false

namespace NormalForm.Cli

def readFile (path : String) : IO Contents := do
  let handle? ← try some <$> IO.FS.Handle.mk path .read catch _ => pure none
  match handle? with
  | none => return .missing
  | some handle =>
      try return .bytes (← handle.readBinToEnd) catch error => return .unreadable (toString error)

def writeFile (path text : String) : IO Written := do
  let handle? ←
    try Except.ok <$> IO.FS.Handle.mk path .write
    catch error => pure (Except.error (toString error))
  match handle? with
  | .error cause => return .notCreated cause
  | .ok handle =>
      try
        handle.putStr text
        handle.flush
        return .done
      catch error => return .notWritten (toString error)

def systemHost : Host IO :=
  { read := readFile
    write := writeFile
    print := fun text => IO.print text
    log := fun record => IO.println ("[" ++ record.level.name ++ "] " ++ record.text)
    clock := IO.monoNanosNow }

def farewell : Exit → String
  | .success => ""
  | .failure context "" => "Error: " ++ context ++ "\n"
  | .failure context cause => "Error: " ++ context ++ "\n\nCaused by:\n    " ++ cause ++ "\n"
  | .usage => usageText
  | .fault fault => fault.message?.getD "index or count out of range" ++ "\n"

end NormalForm.Cli

def main (args : List String) : IO UInt32 := do
  let exit ← NormalForm.Cli.run NormalForm.Cli.systemHost args
  IO.eprint (NormalForm.Cli.farewell exit)
  return exit.code
