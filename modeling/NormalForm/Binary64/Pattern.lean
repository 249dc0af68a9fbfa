import NormalForm.Binary64.Scalar

/-!
Binary64 bit patterns as scalars: they compute as floats do, and their order tells not-a-numbers with
and without a sign apart.
-/

set_option autoImplicit false

namespace NormalForm.Binary64

structure Pattern where
  bits : UInt64
deriving DecidableEq, Repr

namespace Pattern

def toFloat (x : Pattern) : Float := Float.ofBits x.bits

def ofFloat (x : Float) : Pattern := ⟨x.toBits⟩

instance : Arithmetic Pattern where
  add x y := ofFloat (x.toFloat + y.toFloat)
  sub x y := ofFloat (x.toFloat - y.toFloat)
  mul x y := ofFloat (x.toFloat * y.toFloat)
  div x y := ofFloat (x.toFloat / y.toFloat)
  neg x := ⟨x.bits ^^^ 0x8000000000000000⟩
  ofNat n := ofFloat (Float.ofNat n)
  ofRat value := ofFloat (nearest value)
  abs x := ⟨x.bits &&& 0x7FFFFFFFFFFFFFFF⟩
  sqrt x := ofFloat x.toFloat.sqrt
  lt x y := x.toFloat < y.toFloat
  le x y := x.toFloat ≤ y.toFloat
  order x y := compare (rankOfBits x.bits.toNat) (rankOfBits y.bits.toNat)
  isFinite x := x.toFloat.isFinite
  noTerms := ofFloat (-0.0)
  top := ofFloat infinity

end Pattern

end NormalForm.Binary64
