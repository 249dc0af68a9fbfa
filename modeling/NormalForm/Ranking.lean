import NormalForm.Fault
import NormalForm.Scalar
import NormalForm.Word

/-!
Rankings of the strategies of one player: classes of strategies that count as tied, best first. The
members of class `k` take the ranks from `rankOffset k` on.
-/

set_option autoImplicit false

namespace NormalForm

-- Classes, best first, each a list of strategies in ascending order.
structure Ranking where
  classes : List (List Nat)
deriving DecidableEq, Repr

namespace Ranking

def insertMember (strategy : Nat) : List Nat → List Nat
  | [] => [strategy]
  | first :: rest =>
      if strategy < first then strategy :: first :: rest
      else if strategy = first then first :: rest
      else first :: insertMember strategy rest

def ofMembers (members : List Nat) : List Nat := members.foldr insertMember []

-- Marks a strategy below `total` in the table of those placed, where it must not be marked yet.
def mark (total : Nat) (seen : List Bool) (strategy : Nat) : Except Fault (List Bool) := do
  if strategy < total then
    let placed ← entry seen strategy
    if placed then .error (.misplacedStrategy strategy) else .ok (seen.set strategy true)
  else .error (.misplacedStrategy strategy)

def markClass (total : Nat) (seen : List Bool) (members : List Nat) : Except Fault (List Bool) :=
  if members = [] then .error .emptyClass else members.foldlM (mark total) seen

-- The ranking with the given classes, which must be non-empty and place the strategies below some
-- number once each.
def ofClasses (classes : List (List Nat)) : Except Fault Ranking := do
  let classes := classes.map ofMembers
  let total := classes.flatten.length
  let _ ← classes.foldlM (markClass total) (List.replicate total false)
  .ok ⟨classes⟩

def size (ranking : Ranking) : Nat := ranking.classes.length

def strategyCount (ranking : Ranking) : Nat := ranking.classes.flatten.length

def members (ranking : Ranking) (rank : Nat) : Except Fault (List Nat) := entry ranking.classes rank

-- The member with the lowest number, which stands for the class.
def representative (members : List Nat) : Except Fault Nat :=
  match members with
  | first :: _ => .ok first
  | [] => .error .memberlessClass

def rankOffset (ranking : Ranking) (rank : Nat) : Except Fault Nat :=
  if rank ≤ ranking.size then .ok (ranking.classes.take rank).flatten.length
  else .error .bounds

def merge (ranking : Ranking) (rank : Nat) : Except Fault Ranking :=
  if !Word.fits (rank + 1) then .error .overflow
  else
    match ranking.classes.drop rank with
    | upper :: lower :: rest =>
        let members := lower.foldl (fun all member => insertMember member all) upper
        .ok ⟨ranking.classes.take rank ++ members :: rest⟩
    | _ => .error (.noClassBelow rank)

-- Class `rank` parted into the members in `top` and, below them, the others.
def split (ranking : Ranking) (rank : Nat) (top : List Nat) : Except Fault Ranking :=
  match ranking.classes.drop rank with
  | members :: rest =>
      if top = [] ∨ members.length ≤ top.length then .error .emptyPart
      else if top.all fun strategy => members.contains strategy then
        let lower := members.filter fun strategy => !top.contains strategy
        .ok ⟨ranking.classes.take rank ++ ofMembers top :: lower :: rest⟩
      else .error (.foreignMember rank)
  | [] => .error .bounds

variable {α : Type} [Arithmetic α]

def ranksBefore (a b : α × Nat) : Bool :=
  match Arithmetic.order b.1 a.1 with
  | .lt => true
  | .eq => a.2 ≤ b.2
  | .gt => false

-- The strategies with their values, best first.
def descending (values : List α) : List (α × Nat) := values.zipIdx.mergeSort ranksBefore

-- The first neighbours whose values differ by at most the tolerance.
def firstTie? (tolerance : α) : List (α × Nat) → Option (Nat × Nat)
  | a :: b :: rest =>
      if Arithmetic.le (a.1 - b.1) tolerance then some (a.2, b.2) else firstTie? tolerance (b :: rest)
  | _ => none

-- One class per strategy by descending value, or the first two neighbours that tie, in ascending
-- order.
def byPayoff (values : List α) (tolerance : α) : Except Fault (Except (Nat × Nat) Ranking) :=
  let sorted := descending values
  match firstTie? tolerance sorted with
  | some (a, b) => .ok (.error (min a b, max a b))
  | none => do
      let ranking ← ofClasses (sorted.map fun (_, strategy) => [strategy])
      .ok (.ok ranking)

end Ranking

end NormalForm
