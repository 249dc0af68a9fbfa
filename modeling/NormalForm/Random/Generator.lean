/-!
Pseudo-random numbers: the xoshiro256++ generator, its state filled from a seed by SplitMix64, and
draws below a bound by the high half of a product.
-/

set_option autoImplicit false

namespace NormalForm.Random

structure Generator where
  s0 : UInt64
  s1 : UInt64
  s2 : UInt64
  s3 : UInt64
deriving DecidableEq, Repr

def rotateLeft (x : UInt64) (places : UInt64) : UInt64 := (x <<< places) ||| (x >>> (64 - places))

-- The output of SplitMix64 after its state has moved on to `state`.
def mix (state : UInt64) : UInt64 :=
  let z := (state ^^^ (state >>> 30)) * 0xbf58476d1ce4e5b9
  let z := (z ^^^ (z >>> 27)) * 0x94d049bb133111eb
  z ^^^ (z >>> 31)

def golden : UInt64 := 0x9e3779b97f4a7c15

namespace Generator

def ofSeed (seed : UInt64) : Generator :=
  { s0 := mix (seed + golden)
    s1 := mix (seed + 2 * golden)
    s2 := mix (seed + 3 * golden)
    s3 := mix (seed + 4 * golden) }

def next (g : Generator) : UInt64 × Generator :=
  let output := rotateLeft (g.s0 + g.s3) 23 + g.s0
  let s2 := g.s2 ^^^ g.s0
  let s3 := g.s3 ^^^ g.s1
  (output,
    { s0 := g.s0 ^^^ s3
      s1 := g.s1 ^^^ s2
      s2 := s2 ^^^ (g.s1 <<< 17)
      s3 := rotateLeft s3 45 })

-- High and low half of the product of two words.
def wideProduct (a b : UInt64) : Nat × Nat :=
  let product := a.toNat * b.toNat
  (product / Nat.pow 2 64, product % Nat.pow 2 64)

-- A number below `bound`: the high half of a product. When its low half is near the top, a second
-- output settles whether the product would have carried.
def below (bound : UInt64) (g : Generator) : Nat × Generator :=
  let (output, g) := g.next
  let (high, low) := wideProduct output bound
  if low > (0 - bound).toNat then
    let (correction, g) := g.next
    let (carry, _) := wideProduct correction bound
    (if low + carry < Nat.pow 2 64 then high else high + 1, g)
  else (high, g)

def draws (bound : UInt64) : Nat → Generator → List Nat
  | 0, _ => []
  | count + 1, g =>
      let (value, g) := g.below bound
      value :: draws bound count g

end Generator

end NormalForm.Random
