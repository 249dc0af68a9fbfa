import NormalForm.Proofs.Mixed.Reading

/-!
Payoffs in another unit. A table whose payoffs are those of another one, all rescaled alike, gives the
same profile rescaled values: those of strategies, and their derivatives. The identity is a rescaling,
so that tables that pay the same are one case.
-/

set_option autoImplicit false

namespace NormalForm

variable {α : Type}

section Unit

variable [Arithmetic α]

-- Rescaling a payoff commutes with what is computed from payoffs, and keeps their order.
structure Rescaling (f : α → α) : Prop where
  zero : f Arithmetic.zero = Arithmetic.zero
  mul : ∀ weight payoff, weight * f payoff = f (weight * payoff)
  rate : ∀ payoff rate, f payoff * rate = f (payoff * rate)
  sub : ∀ a b, f a - f b = f (a - b)
  sum : ∀ terms, Arithmetic.sum (terms.map f) = f (Arithmetic.sum terms)
  le : ∀ a b, Arithmetic.le (f a) (f b) = Arithmetic.le a b

theorem Rescaling.identity : Rescaling (id : α → α) :=
  ⟨rfl, fun _ _ => rfl, fun _ _ => rfl, fun _ _ => rfl, fun terms => by rw [List.map_id]; rfl, fun _ _ => rfl⟩

-- What the second table pays is what the first pays, rescaled.
structure PayoffTable.Rescales (f : α → α) (one other : PayoffTable α) : Prop where
  dims : other.dims = one.dims
  payoff : ∀ index player, player < one.dims.length →
    other.payoff index player = (one.payoff index player).map f

theorem PayoffTable.strategy_count_over (f : α → α) (one other : PayoffTable α) (rescales : one.Rescales f other)
    (player : Nat) : other.strategyCount player = one.strategyCount player := by
  rw [strategyCount, strategyCount, rescales.dims]

end Unit

namespace Mixed

-- The same probabilities over another table.
def withTable (profile : Mixed α) (table : PayoffTable α) : Mixed α := { profile with table }

theorem free_factors_over (profile : Mixed α) (other : PayoffTable α) (same : other.dims = profile.table.dims)
    (player : Nat) (choices : List (Option Nat)) (strategies : List Nat) :
    (profile.withTable other).freeFactors player choices strategies =
      profile.freeFactors player choices strategies := by
  have read : ∀ player strategy, (profile.withTable other).probability player strategy =
      profile.probability player strategy := by
    intro player strategy
    rw [probability, probability, withTable, PayoffTable.strategyCount, PayoffTable.strategyCount, same]
  induction strategies generalizing player choices with
  | nil =>
      cases choices with
      | nil => rfl
      | cons choice rest => cases choice <;> rfl
  | cons strategy strategies ih =>
      cases choices with
      | nil => rfl
      | cons choice choices =>
          cases choice with
          | none => rw [freeFactors, freeFactors, read, ih]
          | some held => exact ih (player + 1) choices

end Mixed

-- A player who does not exist has no strategy to fix.
theorem Dimensions.fix_outside (dims : Dimensions) (player strategy : Nat) (fixed : List (Nat × Nat))
    (outside : dims.length ≤ player) : dims.fix ((player, strategy) :: fixed) = .error .bounds := by
  have absent : entry dims player = .error .bounds := by
    rw [entry, List.getElem?_eq_none outside]
  rw [fix, List.foldlM_cons, fixOne, absent]
  rfl

namespace Mixed

variable [Arithmetic α] (f : α → α) (rescaling : Rescaling f) (profile : Mixed α) (other : PayoffTable α)
  (rescales : profile.table.Rescales f other)

include rescaling rescales

omit rescaling in
theorem players_over : (profile.withTable other).players = profile.players := congrArg List.length rescales.dims

omit rescaling in
theorem offset_over (player : Nat) : (profile.withTable other).offset player = profile.offset player := by
  have table : (profile.withTable other).table = other := rfl
  rw [offset, offset, players_over f profile other rescales, table, rescales.dims]

theorem term_over (player : Nat) (choices : List (Option Nat)) (strategies : List Nat)
    (inside : player < profile.players) :
    (profile.withTable other).term player choices strategies = (profile.term player choices strategies).map f := by
  have table : (profile.withTable other).table = other := rfl
  rw [term, term, weight, weight, free_factors_over profile other rescales.dims, table, rescales.dims]
  cases profile.freeFactors 0 choices strategies with
  | error fault => rfl
  | ok factors =>
      simp only [ok_bind]
      split
      · exact congrArg Except.ok rescaling.zero.symm
      · rw [rescales.payoff _ player inside]
        cases profile.table.payoff (profile.table.dims.index strategies) player with
        | error fault => rfl
        | ok payoff => exact congrArg Except.ok (rescaling.mul _ payoff)

-- The first of the players fixed is the one who earns.
theorem conditional_over (player strategy : Nat) (fixed : List (Nat × Nat)) :
    (profile.withTable other).conditional player ((player, strategy) :: fixed) =
      (profile.conditional player ((player, strategy) :: fixed)).map f := by
  have table : (profile.withTable other).table = other := rfl
  rw [conditional_eq, conditional_eq, table, rescales.dims]
  by_cases inside : player < profile.players
  · cases profile.table.dims.fix ((player, strategy) :: fixed) with
    | error fault => rfl
    | ok choices =>
        have vectors : (profile.withTable other).pureVectors choices = profile.pureVectors choices := by
          rw [pureVectors, pureVectors, table, rescales.dims]
        have terms := map_m_map (profile.pureVectors choices) (profile.term player choices)
          ((profile.withTable other).term player choices) f fun strategies _ =>
            term_over f rescaling profile other rescales player choices strategies inside
        rw [ok_bind, ok_bind, expected, expected, vectors, terms]
        cases (profile.pureVectors choices).mapM (profile.term player choices) with
        | error fault => rfl
        | ok terms => exact congrArg Except.ok (rescaling.sum terms)
  · rw [Dimensions.fix_outside _ player strategy fixed (Nat.le_of_not_lt inside)]
    rfl

theorem strategy_value_over (player strategy : Nat) :
    (profile.withTable other).strategyValue player strategy = (profile.strategyValue player strategy).map f :=
  conditional_over f rescaling profile other rescales player strategy []

theorem derivative_over (player strategy opponent opposed : Nat) :
    (profile.withTable other).derivative player strategy opponent opposed =
      (profile.derivative player strategy opponent opposed).map f := by
  rw [derivative, derivative]
  by_cases same : opponent = player
  · rw [if_pos same, if_pos same]
    exact congrArg Except.ok rescaling.zero.symm
  · rw [if_neg same, if_neg same]
    exact conditional_over f rescaling profile other rescales player strategy [(opponent, opposed)]

end Mixed

end NormalForm
