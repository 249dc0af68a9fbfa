/-!
The binary64 number nearest to a rational, ties to the even neighbour. A positive finite number is
`mantissa * 2 ^ (exponent - 1074)`, and its bits, read as a natural number, are
`exponent * 2 ^ 52 + mantissa`: below the least normal number the exponent is zero, and above it the
leading bit of the mantissa carries into the exponent.
-/

set_option autoImplicit false

namespace NormalForm.Binary64

def infinityBits : Nat := 0x7FF * Nat.pow 2 52

def signBit : Nat := Nat.pow 2 63

-- The natural number nearest to `n / d`, a half going to the even neighbour.
def roundQuotient (n d : Nat) : Nat :=
  let quotient := n / d
  let twice := 2 * (n % d)
  if twice < d ∨ (twice = d ∧ quotient % 2 = 0) then quotient else quotient + 1

-- The exponent of the grid, counted from `2 ^ (-1074)`, on which `n / d` has 53 binary digits.
def gridExponent (n d : Nat) : Nat :=
  let estimate : Int := (n.log2 : Int) - (d.log2 : Int)
  let tooLarge : Bool :=
    if 0 ≤ estimate then n < d * Nat.pow 2 estimate.toNat else n * Nat.pow 2 (-estimate).toNat < d
  ((if tooLarge then estimate - 1 else estimate) - 52 + 1074).toNat

-- Bits of the nearest number to `n / d`, for positive `n` and `d`.
def quotientBits (n d : Nat) : Nat :=
  let exponent := gridExponent n d
  let mantissa :=
    if 1074 ≤ exponent then roundQuotient n (d * Nat.pow 2 (exponent - 1074))
    else roundQuotient (n * Nat.pow 2 (1074 - exponent)) d
  min (exponent * Nat.pow 2 52 + mantissa) infinityBits

def nearestBits (value : Rat) : Nat :=
  if value.num = 0 then 0
  else
    let magnitude := quotientBits value.num.natAbs value.den
    if value.num < 0 then signBit + magnitude else magnitude

-- The nearest binary64 number; values too large in size give an infinity.
def nearest (value : Rat) : Float := Float.ofBits (nearestBits value).toUInt64

end NormalForm.Binary64
