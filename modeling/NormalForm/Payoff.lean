import NormalForm.Fault

/-!
Payoffs are exact rationals.
-/

set_option autoImplicit false

namespace NormalForm.Payoff

def integer (value : Int) : Rat := value

-- A fraction in lowest terms; the denominator must not be zero.
def ratio (numerator denominator : Int) : Except Fault Rat :=
  if denominator = 0 then .error .zeroDenominator else .ok (Rat.divInt numerator denominator)

end NormalForm.Payoff
