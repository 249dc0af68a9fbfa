import NormalForm.Mixed
import NormalForm.Proofs.Profile.Odometer

/-!
Expected payoffs as sums over strategy vectors. The walk over the profiles in which some players are held keeps an
index up to date; what it adds up is the same sum over the vectors as they are listed, each with the index that its
strategies have.
-/

set_option autoImplicit false

namespace NormalForm

namespace Mixed

/-! The weight of a vector, by what is chosen for every player. -/

def freeFactors {α : Type} (profile : Mixed α) :
    Nat → List (Option Nat) → List Nat → Except Fault (List α)
  | player, none :: choices, strategy :: strategies => do
      let factor ← profile.probability player strategy
      let factors ← profile.freeFactors (player + 1) choices strategies
      .ok (factor :: factors)
  | player, some _ :: choices, _ :: strategies => profile.freeFactors (player + 1) choices strategies
  | _, _, _ => .ok []

-- The induction is on the players; `place` counts them from `player` on.
theorem factors_eq {α : Type} (profile : Mixed α) (held : List Nat) (choices : List (Option Nat)) (strategies : List Nat)
    (player : Nat) (sizes : choices.length = strategies.length)
    (free : ∀ place < choices.length, choices[place]? = some none ↔ player + place ∉ held) :
    profile.factors held player strategies = profile.freeFactors player choices strategies := by
  induction choices generalizing player strategies with
  | nil =>
      cases strategies with
      | nil => rfl
      | cons strategy rest => cases sizes
  | cons choice choices ih =>
      cases strategies with
      | nil => cases sizes
      | cons strategy rest =>
          have later := ih rest (player + 1) (Nat.succ.inj sizes) fun place inside => by
            rw [Nat.add_right_comm, Nat.add_assoc]
            exact free (place + 1) (Nat.succ_lt_succ inside)
          have own : (some choice : Option (Option Nat)) = some none ↔ player ∉ held := free 0 (Nat.succ_pos _)
          cases choice with
          | none => rw [factors, if_neg (own.mp rfl), later, freeFactors]
          | some chosen =>
              have listed : player ∈ held := by simpa using own
              rw [factors, if_pos listed, later, freeFactors]

variable {α : Type} [Arithmetic α]

/-! The sum over the vectors, which the walk adds up. -/

-- The probability of a vector, given the players held fixed.
def weight (profile : Mixed α) (choices : List (Option Nat)) (strategies : List Nat) :
    Except Fault α := do
  let factors ← profile.freeFactors 0 choices strategies
  .ok (Arithmetic.product factors)

def pureVectors (profile : Mixed α) (choices : List (Option Nat)) : List (List Nat) :=
  Dimensions.vectors (profile.table.dims.zip choices)

def term (profile : Mixed α) (player : Nat) (choices : List (Option Nat)) (strategies : List Nat) :
    Except Fault α := do
  let weight ← profile.weight choices strategies
  if Arithmetic.same weight Arithmetic.zero then .ok Arithmetic.zero
  else
    let payoff ← profile.table.payoff (profile.table.dims.index strategies) player
    .ok (weight * payoff)

def expected (profile : Mixed α) (player : Nat) (choices : List (Option Nat)) : Except Fault α := do
  let terms ← (profile.pureVectors choices).mapM (profile.term player choices)
  .ok (Arithmetic.sum terms)

theorem contribution_eq (profile : Mixed α) (player : Nat) (fixed : List (Nat × Nat)) (choices : List (Option Nat))
    (run : profile.table.dims.fix fixed = .ok choices) (strategies : List Nat)
    (sizes : strategies.length = profile.table.dims.length) :
    profile.contribution player (fixed.map Prod.fst) (.ofVector profile.table.dims strategies) =
      profile.term player choices strategies := by
  have width : choices.length = profile.table.dims.length := (Dimensions.fix_ok_held _ fixed choices run).length_eq
  have same : profile.factors (fixed.map Prod.fst) 0 strategies = profile.freeFactors 0 choices strategies := by
    refine factors_eq profile _ choices strategies 0 (width.trans sizes.symm) fun place inside => ?_
    rw [Nat.zero_add]
    exact Dimensions.fix_free _ fixed choices run place (width ▸ inside)
  rw [contribution, term, weight, Profile.ofVector, same]
  cases profile.freeFactors 0 choices strategies with
  | error fault => rfl
  | ok factors => rfl

theorem conditional_eq (profile : Mixed α) (player : Nat) (fixed : List (Nat × Nat)) :
    profile.conditional player fixed = profile.table.dims.fix fixed >>= profile.expected player := by
  rw [conditional, Dimensions.contingencies_eq]
  cases chosen : profile.table.dims.fix fixed with
  | error fault => rfl
  | ok choices =>
      have held := Dimensions.fix_ok_held _ fixed choices chosen
      have each : ∀ strategies ∈ profile.pureVectors choices,
          profile.contribution player (fixed.map Prod.fst) (.ofVector profile.table.dims strategies) =
            profile.term player choices strategies := fun strategies listed =>
        contribution_eq profile player fixed choices chosen strategies
          (Dimensions.in_range_length _ _ (Dimensions.vectors_in_range _ choices held strategies listed))
      rw [ok_bind, expected, ← map_m_congr _ _ _ each, pureVectors, Except.map, ok_bind, List.mapM_map]
      rfl

end Mixed

end NormalForm
