import NormalForm.Binary64.Finite
import NormalForm.Decimal.Digits

/-!
Binary64 numbers with a fixed number of decimal places, a half going to the even neighbour.
-/

set_option autoImplicit false

namespace NormalForm.Binary64

open NormalForm.Decimal

-- The size in units of the last of `places` decimal places, rounded.
def fixedUnits (places mantissa exponent : Nat) : Nat :=
  roundQuotient (mantissa * Nat.pow 2 exponent * Nat.pow 10 places) (Nat.pow 2 1074)

def fixedText (places mantissa exponent : Nat) : List Char :=
  let units := fixedUnits places mantissa exponent
  let whole := digits (units / Nat.pow 10 places)
  if places = 0 then whole else whole ++ '.' :: padded places (units % Nat.pow 10 places)

def fixed (places : Nat) (x : Float) : String := render (fixedText places) x

end NormalForm.Binary64
