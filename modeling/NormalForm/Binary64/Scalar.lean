import NormalForm.Binary64.Order
import NormalForm.Determinant

/-!
Binary64 numbers as scalars. A sum starts from `-0`, the neutral element of addition.
-/

set_option autoImplicit false

namespace NormalForm.Binary64

def infinity : Float := 1.0 / 0.0

instance : Arithmetic Float where
  ofNat := Float.ofNat
  ofRat := nearest
  abs := Float.abs
  sqrt := Float.sqrt
  lt a b := a < b
  le a b := a ≤ b
  order := order
  isFinite := Float.isFinite
  noTerms := -0.0
  top := infinity

instance : Scalar Float where
  det := Determinant.ofRows

end NormalForm.Binary64
