import NormalForm.Scalar

/-!
Settings of the path follower.
-/

set_option autoImplicit false

namespace NormalForm

structure Config (α : Type) where
  maxSteps : Nat
  -- The path is followed until lambda is at or below this value.
  lambdaFloor : α
  -- The Euclidean length of a step, lambda included.
  stepSize : α
  -- The sink is attended to before every step whose number is a multiple; never if zero.
  reportInterval : Nat
  -- The payoff gap, relative to the payoff scale, up to which two strategies tie at the start.
  tieTolerance : α
  -- How far lambda may exceed one, or a probability fall below zero.
  feasibilityTolerance : α

namespace Config

def standard {α : Type} [Arithmetic α] : Config α :=
  { maxSteps := 50000
    lambdaFloor := Arithmetic.ofRat (1 / 100)
    stepSize := Arithmetic.ofRat (1 / 1000)
    reportInterval := 25
    tieTolerance := Arithmetic.ofRat (1 / 10000000000)
    feasibilityTolerance := Arithmetic.ofRat (1 / 1000) }

def same {α : Type} [Arithmetic α] (a b : Config α) : Bool :=
  a.maxSteps == b.maxSteps && Arithmetic.same a.lambdaFloor b.lambdaFloor &&
    Arithmetic.same a.stepSize b.stepSize && a.reportInterval == b.reportInterval &&
    Arithmetic.same a.tieTolerance b.tieTolerance &&
    Arithmetic.same a.feasibilityTolerance b.feasibilityTolerance

end Config

end NormalForm
