import NormalForm.Fault
import NormalForm.Text.Column

/-!
Why no game could be built from text, bytes or tables.
-/

set_option autoImplicit false

namespace NormalForm

inductive ReadError where
  | notUnicode
  | unreadable (cause : String)
  | unexpected (line : Nat) (expected found : String)
  | truncated (expected : String)
  | unterminatedString (line : Nat)
  | badNumber (line : Nat) (text : String)
  | header (line : Nat) (found : String)
  | unknownOutcome (line id : Nat)
  | tooLarge (dimensions : List Nat) (limit : Nat)
  | shape (expected found : Nat)
  -- Strategies in numbers that no table can hold, beside a player without any.
  | unaddressable
deriving DecidableEq, Repr

namespace ReadError

def message : ReadError → String
  | notUnicode => "failed to read input: stream did not contain valid UTF-8"
  | unreadable cause => s!"failed to read input: {cause}"
  | unexpected line expected found => s!"line {line}: expected {expected}, found {found}"
  | truncated expected => s!"unexpected end of input, expected {expected}"
  | unterminatedString line => s!"line {line}: unterminated string"
  | badNumber line text => s!"line {line}: malformed number `{text}`"
  | header line found => s!"line {line}: unsupported header `{found}`"
  | unknownOutcome line id => s!"line {line}: outcome id {id} does not exist"
  | tooLarge dimensions limit =>
      "dimensions " ++ Text.bracketed dimensions ++ s!" exceed {limit} strategy profiles"
  | shape expected found => s!"expected {expected} values, found {found}"
  | unaddressable => "capacity overflow"

-- A failure that its caller is not told of, since it ends the program as a fault does.
def fault? : ReadError → Option Fault
  | unaddressable => some .unaddressable
  | _ => none

end ReadError

end NormalForm
