import NormalForm.Dimensions

/-!
Pure strategy profiles: one strategy per player, with the index of the vector kept up to date while
single strategies change.
-/

set_option autoImplicit false

namespace NormalForm

structure Profile where
  strategies : List Nat
  index : Nat
deriving DecidableEq, Repr

namespace Profile

def first (dims : Dimensions) : Profile := ⟨dims.map fun _ => 0, 0⟩

def ofStrategies (dims : Dimensions) (strategies : List Nat) : Except Fault Profile := do
  let index ← dims.locate strategies
  .ok ⟨strategies, index⟩

-- One player moved to another strategy; the index changes by the difference alone.
def move (dims : Dimensions) (profile : Profile) (player strategy : Nat) : Except Fault Profile := do
  let count ← entry dims player
  if count ≤ strategy then .error (.unknownStrategy strategy)
  else
    let current ← entry profile.strategies player
    if count ≤ current then .error .bounds
    else
      let stride := dims.stride player
      if profile.index < current * stride then .error .overflow
      else
        .ok ⟨profile.strategies.set player strategy,
          profile.index - current * stride + strategy * stride⟩

end Profile

-- A walk over profiles in order of their index, like an odometer: the profile it shows, the players
-- whose strategies are held, and whether the last profile is behind it.
structure Odometer where
  current : Profile
  held : List Bool
  done : Bool
deriving DecidableEq, Repr

namespace Odometer

def hold (dims : Dimensions) (odometer : Odometer) (pair : Nat × Nat) : Except Fault Odometer := do
  let current ← odometer.current.move dims pair.1 pair.2
  .ok { odometer with current, held := odometer.held.set pair.1 true }

-- A player without strategies leaves nothing to show.
def start (dims : Dimensions) (fixed : List (Nat × Nat)) : Except Fault Odometer :=
  fixed.foldlM (hold dims) ⟨.first dims, dims.map fun _ => false, dims.any fun d => d == 0⟩

-- Moves the first player from `player` on who is free and has another strategy; the free players
-- before go back to their first one. Says whether nobody was left to move.
def carry (dims : Dimensions) : Nat → List Bool → Profile → Except Fault (Bool × Profile)
  | _, [], current => .ok (true, current)
  | player, true :: held, current => carry dims (player + 1) held current
  | player, false :: held, current => do
      let count ← entry dims player
      let strategy ← entry current.strategies player
      if strategy + 1 < count then
        let moved ← current.move dims player (strategy + 1)
        .ok (false, moved)
      else
        let reset ← current.move dims player 0
        carry dims (player + 1) held reset

def next (dims : Dimensions) (odometer : Odometer) : Except Fault (Option (Profile × Odometer)) :=
  if odometer.done then .ok none
  else do
    let (done, current) ← carry dims 0 odometer.held odometer.current
    .ok (some (odometer.current, { odometer with current, done }))

-- The profiles still to come, after those that were taken, the last of them first. Every profile has
-- an index of its own, so that a round for each cell is enough.
def collect (dims : Dimensions) : Nat → Odometer → List Profile → Except Fault (List Profile)
  | 0, _, taken => .ok taken.reverse
  | rounds + 1, odometer, taken => do
      match ← odometer.next dims with
      | none => .ok taken.reverse
      | some (profile, rest) => collect dims rounds rest (profile :: taken)

end Odometer

-- The profiles in which every pair of a player and a strategy holds, in order of their index.
def Dimensions.contingencies (dims : Dimensions) (fixed : List (Nat × Nat)) :
    Except Fault (List Profile) := do
  let odometer ← Odometer.start dims fixed
  odometer.collect dims dims.count []

end NormalForm
