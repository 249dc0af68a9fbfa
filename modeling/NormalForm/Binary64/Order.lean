import NormalForm.Binary64.Finite

/-!
The linear order of all binary64 bit patterns: not-a-numbers with a sign, the numbers with `-0` below
`0`, not-a-numbers without a sign. A computed not-a-number carries a sign, so as a `Float`, which does
not show that sign, it stands below all numbers.
-/

set_option autoImplicit false

namespace NormalForm.Binary64

def rankOfBits (bits : Nat) : Int :=
  let magnitude : Int := (bits % signBit : Nat)
  if signBit ≤ bits then -magnitude - 1 else magnitude

-- The bits of the not-a-number that an invalid operation gives.
def computedNaN : Nat := 0xFFF8 * Nat.pow 2 48

def rank (x : Float) : Int :=
  if x.isNaN then rankOfBits computedNaN else rankOfBits x.toBits.toNat

def order (x y : Float) : Ordering := compare (rank x) (rank y)

end NormalForm.Binary64
