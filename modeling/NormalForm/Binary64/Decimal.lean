import NormalForm.Binary64.Scalar
import NormalForm.Decimal.Digits

/-!
The binary64 number nearest to a decimal in scientific notation.
-/

set_option autoImplicit false

namespace NormalForm.Binary64

open NormalForm.Decimal

-- The value of `significand * 10 ^ power`, exact inside the range of binary64 numbers. Powers that
-- leave it are cut short, so that no huge power of ten is ever formed.
def ofScientific (significand : Nat) (power : Int) : Float :=
  if significand = 0 then 0.0
  else
    let leading : Int := (digits significand).length + power
    if 400 < leading then infinity
    else if leading < -400 then 0.0
    else if 0 ≤ power then nearest (significand * Nat.pow 10 power.toNat : Nat)
    else nearest (mkRat significand (Nat.pow 10 (-power).toNat))

-- Unsigned decimal text with an optional fraction and exponent. At least one digit must stand
-- beside the point, and an exponent must have digits.
def ofDecimalText? (text : List Char) : Option Float :=
  let whole := text.takeWhile isDigit
  let rest := text.dropWhile isDigit
  let fraction := match rest with
    | '.' :: more => more.takeWhile isDigit
    | _ => []
  let rest := match rest with
    | '.' :: more => more.dropWhile isDigit
    | _ => rest
  if (whole ++ fraction).isEmpty then none
  else
    let significand := valueOf (whole ++ fraction)
    match rest with
    | [] => some (ofScientific significand (-fraction.length))
    | mark :: more =>
        if mark = 'e' ∨ mark = 'E' then
          let (negative, exponent) := match more with
            | '-' :: exponent => (true, exponent)
            | '+' :: exponent => (false, exponent)
            | _ => (false, more)
          if exponent.isEmpty || !exponent.all isDigit then none
          else
            let size : Int := valueOf exponent
            some (ofScientific significand ((if negative then -size else size) - fraction.length))
        else none

-- A sign and decimal text, an infinity or a not-a-number, in letters of either case.
def ofText? (text : List Char) : Option Float :=
  let (negative, unsigned) := match text with
    | '-' :: rest => (true, rest)
    | '+' :: rest => (false, rest)
    | _ => (false, text)
  let lower := String.ofList (unsigned.map Char.toLower)
  let size? :=
    if lower = "inf" ∨ lower = "infinity" then some infinity
    else if lower = "nan" then some (infinity - infinity)
    else ofDecimalText? unsigned
  size?.map fun size => if negative then -size else size

end NormalForm.Binary64
