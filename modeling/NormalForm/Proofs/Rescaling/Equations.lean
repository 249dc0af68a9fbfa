import NormalForm.Proofs.Rescaling.Values
import NormalForm.Path.Repair

/-!
Paths over a table that pays the same in another unit. Equations of mass stay as they are, and those
that two strategies earn the same are rescaled; the repair of rankings, which compares values with each
other only, does the same over both tables.
-/

set_option autoImplicit false

namespace NormalForm

variable {α : Type}

namespace Path

-- The same state over another table.
def withTable (path : Path α) (table : PayoffTable α) : Path α := { path with profile := path.profile.withTable table }

def Visit.withTable (visit : Visit α) (table : PayoffTable α) : Visit α :=
  { visit with path := visit.path.withTable table }

def Attempt.withTable (attempt : Attempt α) (table : PayoffTable α) : Attempt α :=
  { attempt with path := attempt.path.withTable table }

def Oriented.withTable (oriented : Oriented α) (table : PayoffTable α) : Oriented α :=
  { oriented with path := oriented.path.withTable table }

end Path

-- The unit of a heading: a payoff for classes that part, a probability otherwise.
def Restructure.inUnit (f : α → α) : Restructure → α → α
  | .parted _ _ _ => f
  | _ => id

-- Of the failures only a tie tells a payoff.
def SolveError.inUnit (f : α → α) : SolveError α → SolveError α
  | .tiedPayoffs player first second value => .tiedPayoffs player first second (f value)
  | .degenerate step lambda => .degenerate step lambda
  | .infeasible step lambda lowest => .infeasible step lambda lowest
  | .emptyPlayer player => .emptyPlayer player
  | .noPlayers => .noPlayers

namespace Path

/-! The matrix. -/

section Rows

variable [Arithmetic α] (f : α → α) (rescaling : Rescaling f) (path : Path α) (other : PayoffTable α)
  (rescales : path.table.Rescales f other)

-- A row as it was, or rescaled.
def Rescaled (row result : List α) : Prop := result = row ∨ result = row.map f

include rescales

omit rescaling in
theorem mass_row_over (player : Nat) (members : List Nat) (ranked : Nat) :
    (path.withTable other).massRow player members ranked = path.massRow player members ranked := by
  obtain ⟨⟨⟨dims, cells, scale⟩, probabilities⟩, lambda, orientation, rankings, pending, merges, splits⟩ := path
  obtain ⟨dims, otherCells, otherScale⟩ := other
  obtain ⟨rfl, -⟩ := rescales
  rfl

include rescaling

theorem gap_entries_over (player first strategy opponent : Nat) :
    (path.withTable other).gapEntries player first strategy opponent =
      (path.gapEntries player first strategy opponent).map (List.map f) := by
  have count : (path.withTable other).table.strategyCount opponent = path.table.strategyCount opponent :=
    path.table.strategy_count_over f other rescales opponent
  rw [gapEntries, gapEntries, count]
  apply map_m_map
  intro opposed _
  by_cases own : opponent = player
  · rw [if_pos own, if_pos own]
    exact congrArg Except.ok rescaling.zero.symm
  · have derivative := path.profile.derivative_over f rescaling other rescales
    have profile : (path.withTable other).profile = path.profile.withTable other := rfl
    rw [if_neg own, if_neg own, profile, derivative, derivative]
    cases path.profile.derivative player first opponent opposed with
    | error fault => rfl
    | ok upper =>
        cases path.profile.derivative player strategy opponent opposed with
        | error fault => rfl
        | ok lower => exact congrArg Except.ok (rescaling.sub upper lower)

theorem gap_row_over (player first strategy : Nat) :
    (path.withTable other).gapRow player first strategy = (path.gapRow player first strategy).map (List.map f) := by
  have players : (path.withTable other).profile.players = path.profile.players :=
    path.profile.players_over f other rescales
  have parts := map_m_map (List.range path.profile.players) (path.gapEntries player first strategy)
    ((path.withTable other).gapEntries player first strategy) (List.map f) fun opponent _ =>
      gap_entries_over f rescaling path other rescales player first strategy opponent
  rw [gapRow, gapRow, players, parts]
  cases (List.range path.profile.players).mapM (path.gapEntries player first strategy) with
  | error fault => rfl
  | ok parts =>
      refine congrArg Except.ok ?_
      rw [List.map_append, List.map_flatten, List.map_singleton, rescaling.zero]

theorem class_rows_over (player : Nat) (ranking : Ranking) (rank : Nat) (rows : List (List α))
    (built : path.classRows player ranking rank = .ok rows) :
    ∃ results, (path.withTable other).classRows player ranking rank = .ok results ∧
      List.Forall₂ (Rescaled f) rows results := by
  obtain ⟨members, read, built⟩ := bind_eq_ok.mp built
  obtain ⟨ranked, offset, built⟩ := bind_eq_ok.mp built
  obtain ⟨mass, massRun, built⟩ := bind_eq_ok.mp built
  obtain ⟨first, chosen, built⟩ := bind_eq_ok.mp built
  obtain ⟨gaps, gapsRun, built⟩ := bind_eq_ok.mp built
  cases built
  have gapsOver := map_m_map members.tail (path.gapRow player first) ((path.withTable other).gapRow player first)
    (List.map f) fun strategy _ => gap_row_over f rescaling path other rescales player first strategy
  rw [gapsRun] at gapsOver
  refine ⟨mass :: gaps.map (List.map f), ?_, .cons (.inl rfl) ?_⟩
  · rw [classRows, read, ok_bind, offset, ok_bind, mass_row_over f path other rescales, massRun, ok_bind, chosen,
      ok_bind, gapsOver]
    rfl
  · rw [List.forall₂_map_right_iff]
    exact List.forall₂_same.mpr fun row _ => .inr rfl

theorem player_rows_over (player : Nat) (rows : List (List α)) (built : path.playerRows player = .ok rows) :
    ∃ results, (path.withTable other).playerRows player = .ok results ∧ List.Forall₂ (Rescaled f) rows results := by
  have count : (path.withTable other).table.strategyCount player = path.table.strategyCount player :=
    path.table.strategy_count_over f other rescales player
  obtain ⟨ranking, read, built⟩ := bind_eq_ok.mp built
  have readOver : entry (path.withTable other).rankings player = .ok ranking := read
  rw [playerRows, readOver, ok_bind, count]
  split at built
  · cases built
  · rename_i whole
    obtain ⟨parts, run, same⟩ := bind_eq_ok.mp built
    cases same
    obtain ⟨results, runOver, each⟩ := map_m_follows _ _ ((path.withTable other).classRows player ranking) _ parts run
      fun rank _ rows => class_rows_over f rescaling path other rescales player ranking rank rows
    exact ⟨results.flatten, by rw [if_neg whole, runOver, ok_bind], List.rel_flatten each⟩

theorem jacobian_over (rows : List (List α)) (built : path.jacobian = .ok rows) :
    ∃ results, (path.withTable other).jacobian = .ok results ∧ List.Forall₂ (Rescaled f) rows results := by
  have total : (path.withTable other).table.dims.total = path.table.dims.total :=
    congrArg Dimensions.total rescales.dims
  obtain ⟨parts, run, built⟩ := bind_eq_ok.mp built
  obtain ⟨results, runOver, each⟩ := map_m_follows _ _ (path.withTable other).playerRows _ parts run
    fun player _ rows => player_rows_over f rescaling path other rescales player rows
  have rescaled : List.Forall₂ (Rescaled f) parts.flatten results.flatten := List.rel_flatten each
  have players : (path.withTable other).rankings = path.rankings := rfl
  split at built
  · rename_i whole
    cases built
    refine ⟨results.flatten, ?_, rescaled⟩
    rw [jacobian, players, runOver, ok_bind, total, ← rescaled.length_eq, if_pos whole]
  · cases built

end Rows

/-! The heading. -/

section Heading

variable [Scalar α] (f : α → α) (rescaling : Rescaling f) (path : Path α) (other : PayoffTable α)
  (rescales : path.table.Rescales f other)

include rescaling rescales

theorem gap_terms_over (player upper lower : Nat) (direction : List α) (opponent : Nat) :
    (path.withTable other).gapTerms player upper lower direction opponent =
      (path.gapTerms player upper lower direction opponent).map (List.map f) := by
  have count : (path.withTable other).table.strategyCount opponent = path.table.strategyCount opponent :=
    path.table.strategy_count_over f other rescales opponent
  have profile : (path.withTable other).profile = path.profile.withTable other := rfl
  rw [gapTerms, gapTerms, count, profile, path.profile.offset_over f other rescales]
  cases path.profile.offset opponent with
  | error fault => rfl
  | ok place =>
      refine map_m_map _ _ _ f ?_
      intro strategy _
      have derivative := path.profile.derivative_over f rescaling other rescales
      rw [derivative, derivative]
      cases path.profile.derivative player upper opponent strategy with
      | error fault => rfl
      | ok upperRate =>
          cases path.profile.derivative player lower opponent strategy with
          | error fault => rfl
          | ok lowerRate =>
              cases entry direction (place + strategy) with
              | error fault => rfl
              | ok rate =>
                  refine congrArg Except.ok ?_
                  rw [rescaling.sub, rescaling.rate]

theorem heading_over (change : Restructure) (direction : List α) :
    (path.withTable other).heading change direction = (path.heading change direction).map (change.inUnit f) := by
  have players : (path.withTable other).profile.players = path.profile.players :=
    path.profile.players_over f other rescales
  have profile : (path.withTable other).profile = path.profile.withTable other := rfl
  cases change with
  | start => rfl
  | merged player upper =>
      rw [heading, heading, profile, path.profile.offset_over f other rescales]
      exact (congrFun Except.map_id _).symm
  | parted player upper lower =>
      rw [heading, heading, players]
      have terms := map_m_map ((List.range path.profile.players).filter fun opponent => opponent != player)
        (path.gapTerms player upper lower direction) ((path.withTable other).gapTerms player upper lower direction)
        (List.map f) fun opponent _ =>
          gap_terms_over f rescaling path other rescales player upper lower direction opponent
      rw [terms]
      cases ((List.range path.profile.players).filter fun opponent => opponent != player).mapM
          (path.gapTerms player upper lower direction) with
      | error fault => rfl
      | ok terms =>
          refine congrArg Except.ok ?_
          rw [← List.map_flatten, rescaling.sum]
          rfl

end Heading

end Path

end NormalForm
