import NormalForm.Decimal.Digits
import NormalForm.Fault

/-!
Numerals of payoffs: integers, decimals and fractions, read and written exactly.
-/

set_option autoImplicit false

namespace NormalForm.Decimal

-- The text before and after the first `mark`.
def cut (mark : Char) : List Char → Option (List Char × List Char)
  | [] => none
  | c :: rest =>
      if c = mark then some ([], rest)
      else (cut mark rest).map fun (before, after) => (c :: before, after)

-- Digits and underscores, a digit first.
def groupedNatural? : List Char → Option Nat
  | [] => none
  | c :: rest =>
      if isDigit c && rest.all (fun d => isDigit d || d == '_') then
        some (valueOf ((c :: rest).filter isDigit))
      else none

-- A part of a fraction: at most one sign, then digits in groups.
def groupedInteger? : List Char → Option Int
  | '-' :: rest => (groupedNatural? rest).map fun (n : Nat) => -(n : Int)
  | '+' :: rest => (groupedNatural? rest).map fun (n : Nat) => (n : Int)
  | text => (groupedNatural? text).map fun (n : Nat) => (n : Int)

def fraction? (numerator denominator : List Char) : Option Rat :=
  match groupedInteger? numerator, groupedInteger? denominator with
  | some n, some d => if d = 0 then none else some (Rat.divInt n d)
  | _, _ => none

-- Digits with at most one point among them, and at least one digit.
def unsignedDecimal? (text : List Char) : Option Rat :=
  let (whole, fraction) := (cut '.' text).getD (text, [])
  if (whole ++ fraction).isEmpty || !(whole ++ fraction).all isDigit then none
  else some (mkRat (valueOf (whole ++ fraction)) (Nat.pow 10 fraction.length))

def decimal? : List Char → Option Rat
  | '-' :: rest => (unsignedDecimal? rest).map fun value => -value
  | '+' :: rest => unsignedDecimal? rest
  | text => unsignedDecimal? text

-- The exact value of a numeral: a fraction if it holds a slash, else a decimal.
def numeral? (text : List Char) : Option Rat :=
  match cut '/' text with
  | some (numerator, denominator) => fraction? numerator denominator
  | none => decimal? text

def integer (n : Int) : List Char :=
  if n < 0 then '-' :: digits n.natAbs else digits n.natAbs

-- Lowest terms, the denominator left out when it is one.
def fraction (value : Rat) : List Char :=
  if value.den = 1 then integer value.num
  else integer value.num ++ '/' :: digits value.den

def trimZeros (text : List Char) : List Char :=
  (text.reverse.dropWhile (· == '0')).reverse

-- The most decimal places that can be laid out.
def maxPlaces : Nat := 65535

-- No more places than can be of use: a denominator that divides a power of ten divides the one
-- whose exponent is its binary logarithm.
def usefulPlaces (value : Rat) (places : Nat) : Nat := min places value.den.log2

-- Whether a decimal of at most `places` places is exact.
def isDecimal (value : Rat) (places : Nat) : Bool :=
  Nat.pow 10 (usefulPlaces value places) % value.den == 0

def decimal (value : Rat) (places : Nat) : List Char :=
  let places := usefulPlaces value places
  let scaled := value.num.natAbs * (Nat.pow 10 places / value.den)
  let sign := if value.num < 0 then ['-'] else []
  sign ++ digits (scaled / Nat.pow 10 places) ++ '.' :: trimZeros (padded places (scaled % Nat.pow 10 places))

-- An integer, else a decimal of at most `places` places if one is exact, else a fraction. All the
-- places of a decimal are laid out first, and there is a limit to their number.
def numeral (value : Rat) (places : Nat) : Except Fault (List Char) :=
  if value.den = 1 || !isDecimal value places then .ok (fraction value)
  else if maxPlaces < places then .error .tooManyPlaces
  else .ok (decimal value places)

end NormalForm.Decimal
