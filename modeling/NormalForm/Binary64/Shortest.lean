import NormalForm.Binary64.Finite
import NormalForm.Decimal.Digits

/-!
The shortest decimal text of a binary64 number: the fewest significant digits that read back as the
number, of those the nearest to it, written positionally and without a trailing point.

Sizes are counted in units of `2 ^ (-1076)`, a quarter of the least positive number, in which the
ends of the interval that rounds to a number are whole.
-/

set_option autoImplicit false

namespace NormalForm.Binary64

open NormalForm.Decimal

-- The numbers that round to a given one: a closed interval if its ends belong to it.
structure Interval where
  low : Nat
  centre : Nat
  high : Nat
  closed : Bool

def Interval.ofFinite (mantissa exponent : Nat) : Interval :=
  let unit := Nat.pow 2 exponent
  let below := if mantissa = Nat.pow 2 52 ∧ exponent ≠ 0 then 1 else 2
  { low := (4 * mantissa - below) * unit
    centre := 4 * mantissa * unit
    high := (4 * mantissa + 2) * unit
    closed := mantissa % 2 = 0 }

def unitsPerOne : Nat := Nat.pow 2 1076

-- A decimal `significand * 10 ^ (power - 400)`.
structure Scientific where
  significand : Nat
  power : Nat

-- Of the two neighbours of the centre on a decimal grid, the nearest that rounds to it; the upper
-- one when they are equally near.
def Interval.onGrid? (interval : Interval) (power : Nat) : Option Scientific :=
  let scale := if power ≤ 400 then Nat.pow 10 (400 - power) else 1
  let step := if power ≤ 400 then unitsPerOne else unitsPerOne * Nat.pow 10 (power - 400)
  let floor := interval.centre * scale / step
  let lower := floor * step
  let upper := (floor + 1) * step
  let low := interval.low * scale
  let high := interval.high * scale
  let lowerIn := if interval.closed then low ≤ lower else low < lower
  let upperIn := if interval.closed then upper ≤ high else upper < high
  let upperNearer := upper - interval.centre * scale ≤ interval.centre * scale - lower
  if upperIn && (upperNearer || !lowerIn) then some ⟨floor + 1, power⟩
  else if lowerIn then some ⟨floor, power⟩
  else none

-- The power of ten, shifted by 400, of the leading decimal digit.
def leadingPower (centre : Nat) : Nat :=
  (digits (centre * Nat.pow 10 400 / unitsPerOne)).length - 1

-- The number on the coarsest grid with a hit. The search starts one grid above that of the leading
-- digit, where the next power of ten lies.
def Interval.coarsest (interval : Interval) : Nat → Scientific
  | 0 => ⟨interval.centre * Nat.pow 10 400 / unitsPerOne, 0⟩
  | power + 1 => (interval.onGrid? (power + 1)).getD (interval.coarsest power)

def positional (number : Scientific) : List Char :=
  let numeral := digits number.significand
  if 400 ≤ number.power then numeral ++ List.replicate (number.power - 400) '0'
  else
    let places := 400 - number.power
    if places < numeral.length then
      numeral.take (numeral.length - places) ++ '.' :: numeral.drop (numeral.length - places)
    else '0' :: '.' :: List.replicate (places - numeral.length) '0' ++ numeral

def shortestText (mantissa exponent : Nat) : List Char :=
  if mantissa = 0 then ['0']
  else
    let interval := Interval.ofFinite mantissa exponent
    positional (interval.coarsest (leadingPower interval.centre + 1))

def shortest (x : Float) : String := render shortestText x

end NormalForm.Binary64
