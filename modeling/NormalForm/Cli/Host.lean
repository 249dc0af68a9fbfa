import NormalForm.Fault
import NormalForm.Record

/-!
What the program asks of its surroundings, and the ways it ends.
-/

set_option autoImplicit false

namespace NormalForm.Cli

inductive Contents where
  | bytes (bytes : ByteArray)
  | missing
  | unreadable (cause : String)

inductive Written where
  | done
  | notCreated (cause : String)
  | notWritten (cause : String)

structure Host (m : Type → Type) where
  read : String → m Contents
  write : String → String → m Written
  print : String → m Unit
  log : Record → m Unit
  clock : m Nat

-- The host that hears of debug records only if the program is to be verbose.
def Host.leveled {m : Type → Type} [Monad m] (verbose : Bool) (host : Host m) : Host m :=
  { host with
    log := fun record => if verbose || record.level != .debug then host.log record else pure () }

inductive Exit where
  | success
  | failure (context cause : String)
  | usage
  | fault (fault : Fault)

namespace Exit

def code : Exit → UInt32
  | success => 0
  | failure _ _ => 1
  | usage => 2
  | fault _ => 101

def headline? : Exit → Option String
  | failure context _ => some ("Error: " ++ context)
  | _ => none

end Exit

abbrev Program (m : Type → Type) := ExceptT Exit m

variable {m : Type → Type} [Monad m]

def fail {α : Type} (context cause : String) : Program m α := throw (.failure context cause)

def checked {α : Type} : Except Fault α → Program m α
  | .ok value => pure value
  | .error fault => throw (.fault fault)

def Host.logEvents (host : Host m) (events : List (Event Float)) : Program m Unit :=
  events.forM fun event => match Record.ofEvent event with
    | some record => host.log record
    | none => pure ()

def Host.printLines (host : Host m) (lines : List String) : Program m Unit :=
  lines.forM fun line => host.print (line ++ "\n")

end NormalForm.Cli
