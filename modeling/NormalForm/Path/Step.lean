import NormalForm.Path.Jacobian

/-!
A step along the path. The direction is the null vector of the Jacobian, by cofactors, times the
orientation of the walk. After a change of rankings it is turned around if it heads back into the
region that the walk has left. Steps have a fixed Euclidean length.
-/

set_option autoImplicit false

namespace NormalForm.Path

variable {α : Type} [Scalar α]

def alternating (column : Nat) : α :=
  if column % 2 = 0 then Arithmetic.one else -Arithmetic.one

-- The oriented cofactors of a matrix with one column more than rows.
def tangent (orientation : α) (rows : List (List α)) : List α :=
  (List.range (rows.length + 1)).map fun column =>
    orientation * alternating column * Scalar.det (rows.map fun row => row.eraseIdx column)

-- Headings up to this share of the largest entry times the payoff scale count as none.
def headingTolerance : α := Arithmetic.ofRat (1 / 1000000000)

def fallOfLambda (direction : List α) : α := -(direction.getLastD Arithmetic.zero)

-- What one opponent's part of a direction adds to the gap between two strategies.
def gapTerms (path : Path α) (player upper lower : Nat) (direction : List α) (other : Nat) :
    Except Fault (List α) := do
  let place ← path.profile.offset other
  (List.range (path.table.strategyCount other)).mapM fun strategy => do
    let upperRate ← path.profile.derivative player upper other strategy
    let lowerRate ← path.profile.derivative player lower other strategy
    let rate ← entry direction (place + strategy)
    .ok ((upperRate - lowerRate) * rate)

-- How fast a direction moves into the region of the new rankings; negative if it moves out.
def heading (path : Path α) (change : Restructure) (direction : List α) : Except Fault α :=
  match change with
  | .start => .ok (fallOfLambda direction)
  | .merged player upper => do
      let own ← path.profile.offset player
      let rates ← upper.mapM fun strategy => entry direction (own + strategy)
      .ok (-Arithmetic.sum rates)
  | .parted player upper lower => do
      let others := (List.range path.profile.players).filter fun other => other != player
      let terms ← others.mapM (path.gapTerms player upper lower direction)
      .ok (Arithmetic.sum terms.flatten)

-- The path and direction after the pending change is settled, and whether the walk was turned.
structure Oriented (α : Type) where
  path : Path α
  direction : List α
  turned : Option Restructure

-- Settles the pending change: a heading too small to count leaves the choice to lambda, which must
-- not rise.
def orient (path : Path α) (direction : List α) : Except Fault (Oriented α) :=
  match path.pending with
  | none => .ok ⟨path, direction, none⟩
  | some change => do
      let settled := { path with pending := none }
      let rate ← path.heading change direction
      let threshold := Arithmetic.largest (direction.map Arithmetic.abs) *
        Arithmetic.max path.table.scale Arithmetic.one
      let rate :=
        if Arithmetic.le (Arithmetic.abs rate) (headingTolerance * threshold)
        then fallOfLambda direction else rate
      if Arithmetic.lt rate Arithmetic.zero then
        .ok ⟨{ settled with orientation := -settled.orientation }, direction.map (- ·), some change⟩
      else .ok ⟨settled, direction, none⟩

def length (direction : List α) : α :=
  Arithmetic.sqrt (Arithmetic.sum (direction.map fun t => t * t))

def hasLength (length : α) : Bool :=
  Arithmetic.isFinite length && Arithmetic.lt Arithmetic.zero length

-- Moves profile and lambda along a direction of the given length by the step size.
def move (path : Path α) (direction : List α) (stepSize length : α) : Except Fault (Path α) := do
  let scale := stepSize / length
  let columns := direction.length - 1
  let profile ← path.profile.add ((direction.take columns).map fun t => t * scale)
  let rate ← entry direction columns
  .ok { path with profile, lambda := path.lambda + rate * scale }

def infeasible? (path : Path α) (step : Nat) (tolerance : α) : Option (SolveError α) :=
  let lowest := Arithmetic.smallest path.profile.probabilities
  if Arithmetic.lt (Arithmetic.one + tolerance) path.lambda || Arithmetic.lt lowest (-tolerance)
  then some (.infeasible step path.lambda lowest)
  else none

end NormalForm.Path
