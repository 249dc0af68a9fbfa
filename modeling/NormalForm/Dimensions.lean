import NormalForm.Word
import NormalForm.Fault

/-!
Dimensions: the number of strategies of each player, and the numbering of strategy vectors. A vector
is a mixed-radix numeral whose first digit, the strategy of player 0, varies fastest.
-/

set_option autoImplicit false

namespace NormalForm

abbrev Dimensions := List Nat

namespace Dimensions

def count : Dimensions → Nat
  | [] => 1
  | d :: rest => d * count rest

-- The number of strategies of all players.
def total (dims : Dimensions) : Nat := dims.foldr (· + ·) 0

def productFrom? (product : Nat) : Dimensions → Option Nat
  | [] => some product
  | d :: rest => if Word.fits (product * d) then productFrom? (product * d) rest else none

-- The number of strategy vectors, if the product over every leading group of players fits a word.
def product? (dims : Dimensions) : Option Nat := productFrom? 1 dims

-- Bytes that a table keeps of a strategy: its number, its part of the index, and a name of three
-- words.
def strategyBytes : Nat := 40

def cellBytes : Nat := 16

-- The number of strategy vectors. Tables of strategies that cannot be addressed are refused first, then
-- products that do not fit, and last a table of cells.
def allotted (dims : Dimensions) : Except Fault Nat :=
  if dims.all fun d => Word.addressable d strategyBytes then
    match product? dims with
    | some cells => if Word.addressable cells cellBytes then .ok cells else .error .unaddressable
    | none => .error .overflow
  else .error .unaddressable

-- The number of strategy vectors, if the products fit and the tables of strategies and of cells can
-- be addressed.
def count? (dims : Dimensions) : Option Nat := dims.allotted.toOption

-- The step of the index when `player` changes to the next strategy.
def stride (dims : Dimensions) (player : Nat) : Nat := count (dims.take player)

-- What a strategy contributes to the index of a vector.
def contribution (dims : Dimensions) (player strategy : Nat) : Nat := strategy * dims.stride player

def offset (dims : Dimensions) (player : Nat) : Nat := total (dims.take player)

def index : Dimensions → List Nat → Nat
  | d :: dims, s :: strategies => s + d * index dims strategies
  | _, _ => 0

-- Strategy and number of the first player, counted from `number`, who lacks the strategy named.
def firstUnknown? (number : Nat) : Dimensions → List Nat → Option (Nat × Nat)
  | d :: dims, s :: strategies =>
      if s < d then firstUnknown? (number + 1) dims strategies else some (s, number)
  | _, _ => none

def locate (dims : Dimensions) (strategies : List Nat) : Except Fault Nat :=
  if strategies.length = dims.length then
    match firstUnknown? 1 dims strategies with
    | some (strategy, number) => .error (.unknownStrategyOf strategy number)
    | none => .ok (index dims strategies)
  else .error .profileLength

end Dimensions

end NormalForm
