/-!
Scalars: the numbers that probabilities, payoffs and path positions are counted in. Everything
numeric is written over this interface, so that one definition is read in floating point and in
exact arithmetic.

Comparisons are Boolean, and false when an operand is not a number.
-/

set_option autoImplicit false

namespace NormalForm

class Arithmetic (α : Type) extends Add α, Sub α, Mul α, Div α, Neg α where
  ofNat : Nat → α
  ofRat : Rat → α
  abs : α → α
  sqrt : α → α
  lt : α → α → Bool
  le : α → α → Bool
  -- A linear order of all values, those that are not a number included.
  order : α → α → Ordering
  isFinite : α → Bool
  noTerms : α
  -- The minimum of no numbers.
  top : α

class Scalar (α : Type) extends Arithmetic α where
  det : List (List α) → α

namespace Arithmetic

variable {α : Type} [Arithmetic α]

def zero : α := ofNat 0

def one : α := ofNat 1

def same (a b : α) : Bool := le a b && le b a

def isNumber (a : α) : Bool := le a a

-- The larger operand; one that is not a number is ignored.
def max (a b : α) : α := if !isNumber a || lt a b then b else a

-- The smaller operand; one that is not a number is ignored.
def min (a b : α) : α := if !isNumber a || lt b a then b else a

def sum (terms : List α) : α := terms.foldl (· + ·) noTerms

def product (factors : List α) : α := factors.foldl (· * ·) one

def largest (values : List α) : α := values.foldl max zero

def smallest : List α → α
  | [] => top
  | first :: rest => rest.foldl min (if isNumber first then first else top)

def clamp (low high a : α) : α := if lt a low then low else if lt high a then high else a

-- Powers by squaring: `result * base ^ exponent`, the lowest bit of the exponent first.
def powerFrom (result base : α) (exponent : Nat) : α :=
  let result := if exponent % 2 = 1 then result * base else result
  if exponent / 2 = 0 then result else powerFrom result (base * base) (exponent / 2)
termination_by exponent

def power (base : α) (exponent : Nat) : α := powerFrom one base exponent

end Arithmetic

end NormalForm
