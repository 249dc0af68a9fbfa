import NormalForm.Binary64.Nearest

/-!
A binary64 number taken apart: its sign and, when finite, its exact size.
-/

set_option autoImplicit false

namespace NormalForm.Binary64

inductive Size where
  | notANumber
  | infinite
  -- The number `mantissa * 2 ^ (exponent - 1074)`.
  | finite (mantissa exponent : Nat)
deriving DecidableEq, Repr

def isNegative (x : Float) : Bool := signBit ≤ x.toBits.toNat

def size (x : Float) : Size :=
  let magnitude := x.toBits.toNat % signBit
  let field := magnitude / Nat.pow 2 52
  let rest := magnitude % Nat.pow 2 52
  if field = 0x7FF then (if rest = 0 then .infinite else .notANumber)
  else if field = 0 then .finite rest 0
  else .finite (Nat.pow 2 52 + rest) (field - 1)

def render (finiteText : Nat → Nat → List Char) (x : Float) : String :=
  let sign := if isNegative x then ['-'] else []
  match size x with
  | .notANumber => "NaN"
  | .infinite => String.ofList (sign ++ ['i', 'n', 'f'])
  | .finite mantissa exponent => String.ofList (sign ++ finiteText mantissa exponent)

end NormalForm.Binary64
