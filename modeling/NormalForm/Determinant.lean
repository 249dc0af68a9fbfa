import NormalForm.Scalar

/-!
Determinants as floating-point code evaluates them: closed formulas up to three rows, elimination
with partial pivoting from four. The order of the operations fixes the rounding.
-/

set_option autoImplicit false

namespace NormalForm.Determinant

variable {α : Type} [Arithmetic α]

-- Position and value of the first entry of largest size.
def pivotFrom (best : Nat × α) (position : Nat) : List α → Nat × α
  | [] => best
  | value :: rest =>
      let larger := Arithmetic.lt (Arithmetic.abs best.2) (Arithmetic.abs value)
      pivotFrom (if larger then (position, value) else best) (position + 1) rest

def leading (row : List α) : α := row.headD Arithmetic.zero

-- The other rows after the first row and row `position` have changed places.
def exchange (first : List α) (rest : List (List α)) : Nat → List (List α)
  | 0 => rest
  | position + 1 => rest.set position first

def reduce (pivotTail : List α) (inverse : α) (row : List α) : List α :=
  let multiplier := leading row * inverse
  List.zipWith (fun entry pivot => entry - multiplier * pivot) row.tail pivotTail

-- Pivots from top to bottom, and whether the number of exchanges is odd. A column without a
-- non-zero pivot is passed over, its pivot counting as zero.
def eliminate : Nat → List (List α) → Bool → List α × Bool
  | size + 1, first :: rest, odd =>
      let (position, pivot) := pivotFrom (0, leading first) 1 (rest.map leading)
      if Arithmetic.same pivot Arithmetic.zero then
        let (pivots, odd) := eliminate size (rest.map List.tail) odd
        (leading first :: pivots, odd)
      else
        let top := if position = 0 then first else rest.getD (position - 1) first
        let below := exchange first rest position
        let inverse := Arithmetic.one / pivot
        let (pivots, odd) :=
          eliminate size (below.map (reduce top.tail inverse)) (odd != (position != 0))
        (pivot :: pivots, odd)
  | _, _, odd => ([], odd)

def byElimination (rows : List (List α)) : α :=
  let (pivots, odd) := eliminate rows.length rows false
  Arithmetic.product pivots * (if odd then -Arithmetic.one else Arithmetic.one)

def ofRows : List (List α) → α
  | [] => Arithmetic.one
  | [[a]] => a
  | [[a, b], [c, d]] => a * d - c * b
  | [[a, b, c], [d, e, f], [g, h, i]] =>
      a * (e * i - h * f) - b * (d * i - g * f) + c * (d * h - g * e)
  | rows => byElimination rows

end NormalForm.Determinant
