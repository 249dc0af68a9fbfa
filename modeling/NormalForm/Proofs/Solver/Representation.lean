import NormalForm.Binary64.Scalar
import NormalForm.Proofs.Binary64.Largest
import NormalForm.Proofs.Exact.Mass
import NormalForm.Proofs.Rescaling.Run

/-!
What a run reads of a game. Games that pay the same in every cell have the same runs, however their
outcomes are numbered, labelled or shared, as long as the largest payoff is the same, to which the
tolerances are relative. Only an outcome that stands in no cell can make the difference.
-/

set_option autoImplicit false

namespace NormalForm

-- The games have the same players and strategies, and pay the same in every cell.
structure Game.PaysAlike (one other : Game) : Prop where
  dims : other.dimensions = one.dimensions
  payoffs : ∀ index player, index < one.cells.size → player < one.dimensions.length →
    other.payoffAt index player = one.payoffAt index player

theorem PayoffTable.payoff_of_game {α : Type} [Arithmetic α] (game : Game) (valid : game.WellFormed)
    (index player : Nat) :
    (PayoffTable.ofGame game : PayoffTable α).payoff index player =
      (game.payoffAt index player).map Arithmetic.ofRat := by
  rw [of_game_payoff, Game.payoffAt, Game.cell]
  cases held : game.cells[index]? with
  | none => rfl
  | some cell =>
      cases cell with
      | none => rfl
      | some place =>
          have below := valid.places index place held
          have found := Array.getElem?_eq_getElem below
          have read : entry game.outcomes.toList place = .ok game.outcomes[place] := by
            rw [entry_eq_ok, Array.getElem?_toList, found]
          simp only [Option.bind_some, found, ok_bind, read, entry_map]

theorem PayoffTable.of_game_alike {α : Type} [Arithmetic α] (one other : Game) (valid : one.WellFormed)
    (otherValid : other.WellFormed) (alike : one.PaysAlike other) :
    (PayoffTable.ofGame one : PayoffTable α).Rescales id (.ofGame other) := by
  refine ⟨alike.dims, ?_⟩
  intro index player inside
  rw [payoff_of_game one valid, payoff_of_game other otherValid]
  by_cases cell : index < one.cells.size
  · rw [alike.payoffs index player cell inside]
    exact (congrFun Except.map_id _).symm
  · have outside : ¬ index < other.cells.size := by rwa [otherValid.cells, alike.dims, ← valid.cells]
    have unread (game : Game) (none : ¬ index < game.cells.size) : game.payoffAt index player = .error .bounds := by
      rw [Game.payoffAt, Game.cell, Array.getElem?_eq_none (Nat.le_of_not_lt none)]
      rfl
    rw [unread one cell, unread other outside]
    rfl

namespace Path

variable {α : Type} [Scalar α]

theorem orient_alike (path : Path α) (other : PayoffTable α) (alike : path.table.Rescales id other)
    (scale : Arithmetic.max other.scale Arithmetic.one = Arithmetic.max path.table.scale Arithmetic.one)
    (direction : List α) :
    (path.withTable other).orient direction = (path.orient direction).map fun oriented => oriented.withTable other := by
  have pending : (path.withTable other).pending = path.pending := rfl
  have table : (path.withTable other).table = other := rfl
  rw [orient, orient, pending]
  cases path.pending with
  | none => rfl
  | some change =>
      have unit : change.inUnit (id : α → α) = id := by cases change <;> rfl
      have heading : (path.withTable other).heading change direction = path.heading change direction := by
        rw [heading_over id .identity path other alike, unit]
        exact congrFun Except.map_id _
      simp only [heading, table, scale, bind_map]
      refine bind_congr fun rate => ?_
      generalize Arithmetic.lt _ (Arithmetic.zero : α) = backwards
      cases backwards with
      | true => rfl
      | false => rfl

theorem advance_alike (path : Path α) (valid : path.Valid) (other : PayoffTable α)
    (alike : path.table.Rescales id other)
    (scale : Arithmetic.max other.scale Arithmetic.one = Arithmetic.max path.table.scale Arithmetic.one)
    (step : Nat) (config : Config α) :
    (path.withTable other).advance step config =
      (path.advance step config).map fun attempt => attempt.withTable other := by
  obtain ⟨rows, oriented, built, settled, -, place, -⟩ := turn_succeeds path valid
  obtain ⟨results, builtOver, each⟩ := jacobian_over id .identity path other alike rows built
  have same : List.Forall₂ (fun result row => result = row) results rows := by
    refine (each.imp ?_).flip
    rintro row result (same | mapped)
    · exact same
    · exact mapped.trans (List.map_id row)
  rw [List.forall₂_eq_eq_eq] at same
  have settledOver : (path.withTable other).orient (tangent (path.withTable other).orientation results) =
      .ok (oriented.withTable other) := by
    rw [same, orient_alike path other alike scale]
    exact congrArg (Except.map _) settled
  have table : oriented.path.table = path.table := congrArg Mixed.table place.profile
  rw [advance_proceeds path step config rows oriented built settled,
    advance_proceeds _ step config results _ builtOver settledOver]
  exact proceed_over id .identity other oriented.path (table ▸ alike) _ _ step config

end Path

theorem SolveError.same_unit {α : Type} (failure : SolveError α) : failure.inUnit id = failure := by
  cases failure <;> rfl

theorem PayoffTable.solve_alike {m : Type → Type} [Monad m] [LawfulMonad m] {α : Type} [Scalar α]
    (one other : PayoffTable α) (alike : one.Rescales id other)
    (scale : Arithmetic.max other.scale Arithmetic.one = Arithmetic.max one.scale Arithmetic.one)
    (complete : one.Complete) (words : ∀ d ∈ one.dims, d < Word.size) (config : Config α) (sink : StatusSink m α) :
    other.solve config sink = Except.map (fun ending => ending.withTable other) <$> one.solve config sink := by
  have begins := Path.start_over id .identity one other alike config fun values => by rw [List.map_id, scale]
  cases begun : Path.start one config with
  | error fault =>
      rw [begun] at begins
      simp only [solve, begun, begins, Except.map, map_pure]
  | ok outcome =>
      rw [begun] at begins
      cases outcome with
      | error failure =>
          simp only [solve, begun, begins, Except.map, Except.mapError, SolveError.same_unit, map_pure]
          rfl
      | ok path =>
          refine PayoffTable.solve_over one other alike.dims complete words config sink path begun begins ?_
          intro run reached _
          obtain ⟨valid, same⟩ := Run.reached_valid one complete words config run reached
          exact run.path.advance_alike valid other (same ▸ alike) (same ▸ scale) (run.steps + 1) config

namespace Game

theorem payoff_scale_eq (game : Game) :
    (game.payoffScale : ℝ) = Arithmetic.largest
      ((game.outcomes.toList.map Outcome.payoffs).flatMap fun row => row.map fun value : Rat => |(value : ℝ)|) := by
  rw [payoffScale, List.flatMap_map]
  rfl

-- Every outcome stands in some cell.
def NoneUnused (game : Game) : Prop :=
  ∀ place < game.outcomes.size, ∃ index : Nat, game.cells[index]? = some (some place)

-- Some player is paid this amount in some cell.
def Pays (game : Game) (payoff : Rat) : Prop :=
  ∃ index < game.cells.size, ∃ player < game.dimensions.length, game.payoffAt index player = .ok payoff

-- A cell without an outcome pays zero.
theorem listed_of_pays (game : Game) (payoff : Rat) (pays : game.Pays payoff) :
    payoff = 0 ∨ ∃ outcome ∈ game.outcomes.toList, payoff ∈ outcome.payoffs := by
  obtain ⟨index, inside, player, -, paid⟩ := pays
  rw [payoffAt, Game.cell, Array.getElem?_eq_getElem inside] at paid
  cases held : game.cells[index] with
  | none =>
      rw [held, ok_bind] at paid
      cases paid
      exact .inl rfl
  | some place =>
      rw [held, ok_bind] at paid
      obtain ⟨outcome, found, paid⟩ := bind_eq_ok.mp paid
      refine .inr ⟨outcome, ?_, ?_⟩
      · exact List.mem_of_getElem? ((entry_eq_ok _ _ _).mp found)
      · exact List.mem_of_getElem? ((entry_eq_ok _ _ _).mp paid)

theorem pays_of_listed (game : Game) (valid : game.WellFormed) (used : game.NoneUnused) (outcome : Outcome)
    (member : outcome ∈ game.outcomes.toList) (payoff : Rat) (listed : payoff ∈ outcome.payoffs) :
    game.Pays payoff := by
  obtain ⟨place, below, rfl⟩ := List.mem_iff_getElem.mp member
  obtain ⟨player, inside, rfl⟩ := List.mem_iff_getElem.mp listed
  obtain ⟨index, held⟩ := used place below
  have fits := valid.outcomes place _ (Array.getElem?_eq_getElem below)
  obtain ⟨cell, -⟩ := Array.getElem?_eq_some_iff.mp held
  refine ⟨index, cell, player, fits.payoffs ▸ inside, ?_⟩
  rw [payoffAt, Game.cell, held]
  simp only [ok_bind, entry_inside _ _ below]
  exact entry_inside _ _ inside

theorem PaysAlike.symm {one other : Game} (alike : one.PaysAlike other) (valid : one.WellFormed)
    (otherValid : other.WellFormed) : other.PaysAlike one := by
  refine ⟨alike.dims.symm, ?_⟩
  intro index player cell inside
  rw [otherValid.cells, alike.dims, ← valid.cells] at cell
  exact (alike.payoffs index player cell (alike.dims ▸ inside)).symm

theorem PaysAlike.pays {one other : Game} (alike : one.PaysAlike other) (valid : one.WellFormed)
    (otherValid : other.WellFormed) (payoff : Rat) (pays : one.Pays payoff) : other.Pays payoff := by
  obtain ⟨index, cell, player, inside, paid⟩ := pays
  refine ⟨index, ?_, player, alike.dims.symm ▸ inside, (alike.payoffs index player cell inside).trans paid⟩
  rwa [otherValid.cells, alike.dims, ← valid.cells]

-- The sizes of the payoffs of all outcomes, of which the payoff scale is the largest.
def payoffSizes {α : Type} [Arithmetic α] (game : Game) : List α :=
  game.outcomes.toList.flatMap fun outcome => outcome.payoffs.map fun value => Arithmetic.abs (Arithmetic.ofRat value)

theorem payoff_scale_of_sizes {α : Type} [Arithmetic α] (game : Game) :
    (game.payoffScale : α) = Arithmetic.largest game.payoffSizes :=
  rfl

theorem mem_payoff_sizes {α : Type} [Arithmetic α] (game : Game) (size : α) : size ∈ game.payoffSizes ↔
    ∃ payoff, (∃ outcome ∈ game.outcomes.toList, payoff ∈ outcome.payoffs) ∧
      Arithmetic.abs (Arithmetic.ofRat payoff) = size := by
  rw [payoffSizes, List.mem_flatMap]
  constructor
  · rintro ⟨outcome, member, listed⟩
    obtain ⟨payoff, known, same⟩ := List.mem_map.mp listed
    exact ⟨payoff, ⟨outcome, member, known⟩, same⟩
  · rintro ⟨payoff, ⟨outcome, member, known⟩, same⟩
    exact ⟨outcome, member, List.mem_map.mpr ⟨payoff, known, same⟩⟩

-- Where every outcome is used, the sizes are those that the cells pay. Zero can come from a cell without one.
theorem payoff_sizes_alike {α : Type} [Arithmetic α] (zero : Arithmetic.abs (Arithmetic.ofRat 0 : α) = Arithmetic.zero)
    {one other : Game} (alike : one.PaysAlike other) (valid : one.WellFormed) (otherValid : other.WellFormed)
    (used : one.NoneUnused) (size : α) (listed : size ∈ one.payoffSizes) :
    size = Arithmetic.zero ∨ size ∈ other.payoffSizes := by
  obtain ⟨payoff, ⟨outcome, member, known⟩, rfl⟩ := (mem_payoff_sizes one size).mp listed
  have pays := pays_of_listed one valid used outcome member payoff known
  rcases listed_of_pays other payoff (alike.pays valid otherValid payoff pays) with rfl | found
  · exact .inl zero
  · exact .inr ((mem_payoff_sizes other _).mpr ⟨payoff, found, rfl⟩)

theorem payoff_scale_alike {one other : Game} (alike : one.PaysAlike other) (valid : one.WellFormed)
    (otherValid : other.WellFormed) (used : one.NoneUnused) (otherUsed : other.NoneUnused) :
    (other.payoffScale : Float) = one.payoffScale ∧ (other.payoffScale : ℝ) = one.payoffScale := by
  have alike' := alike.symm valid otherValid
  simp only [payoff_scale_of_sizes]
  constructor
  · exact Binary64.largest_of_same _ _ (payoff_sizes_alike rfl alike' otherValid valid otherUsed)
      (payoff_sizes_alike rfl alike valid otherValid used)
  · have zero : Arithmetic.abs (Arithmetic.ofRat 0 : ℝ) = Arithmetic.zero := by
      rw [Exact.zero_eq]
      exact (congrArg abs Rat.cast_zero).trans abs_zero
    exact Exact.largest_of_same _ _ (payoff_sizes_alike zero alike' otherValid valid otherUsed)
      (payoff_sizes_alike zero alike valid otherValid used)

-- The second run has the effects of the first, and ends alike with the same probabilities.
theorem solve_reads_payoffs_and_scale {m : Type → Type} [Monad m] [LawfulMonad m] (one other : Game)
    (reachable : one.Reachable) (otherReachable : other.Reachable) (alike : one.PaysAlike other) :
    (∀ {α : Type} [Scalar α] (config : Config α) (sink : StatusSink m α),
      Arithmetic.max other.payoffScale (Arithmetic.one : α) = Arithmetic.max one.payoffScale Arithmetic.one →
        other.solve config sink =
          Except.map (fun ending => ending.withTable (.ofGame other)) <$> one.solve config sink) ∧
    (one.NoneUnused → other.NoneUnused →
      (other.payoffScale : Float) = one.payoffScale ∧ (other.payoffScale : ℝ) = one.payoffScale) := by
  have valid := reachable_well_formed one reachable
  have otherValid := reachable_well_formed other otherReachable
  refine ⟨?_, payoff_scale_alike alike valid otherValid⟩
  intro α scalar config sink scale
  have same : (PayoffTable.ofGame one : PayoffTable α).Rescales id (.ofGame other) :=
    PayoffTable.of_game_alike one other valid otherValid alike
  exact PayoffTable.solve_alike _ _ same scale (PayoffTable.of_game_complete one valid)
    (Dimensions.words_of_count one.dimensions valid.addressable) config sink

/-! One player, with payoffs one and zero. -/

namespace Choice

-- Only the better strategy has an outcome.
def history : List Operation := [.newOutcome ⟨1⟩, .setPayoff ⟨1⟩ 0 1, .setOutcome [0] (some ⟨1⟩)]

-- The worse strategy has an outcome as well, which comes first.
def shared : List Operation :=
  [.newOutcome ⟨1⟩, .newOutcome ⟨2⟩, .setPayoff ⟨2⟩ 0 1, .setOutcome [0] (some ⟨2⟩), .setOutcome [1] (some ⟨1⟩)]

-- An outcome of payoff two stands in no cell.
def unused : List Operation := history ++ [.newOutcome ⟨2⟩, .setPayoff ⟨2⟩ 0 2]

-- Strategies whose payoffs differ by half the largest payoff or less tie.
def config : Config Float :=
  { maxSteps := 0, lambdaFloor := 0, stepSize := 1, reportInterval := 0, tieTolerance := 0.5,
    feasibilityTolerance := 0 }

-- A game of one player whose first strategy pays one and whose second pays nothing; and its largest payoff.
structure Shape (game : Game) (scale : Float) : Prop where
  dims : game.dimensions = [2]
  better : game.payoffAt 0 0 = .ok 1
  worse : game.payoffAt 1 0 = .ok 0
  values : ((List.range 2).mapM ((Mixed.uniform (.ofGame game)).strategyValue 0)).toOption = some [(1 : Float), 0]
  scale : game.payoffScale = scale

theorem alike (one other : Game) (first second : Float) (shape : Shape one first) (same : Shape other second)
    (valid : one.WellFormed) : one.PaysAlike other := by
  refine ⟨same.dims.trans shape.dims.symm, ?_⟩
  intro index player cell inside
  rw [valid.cells, shape.dims] at cell
  rw [shape.dims] at inside
  have below : index < 2 := cell
  have lone : player = 0 := Nat.lt_one_iff.mp inside
  subst lone
  interval_cases index
  · exact same.better.trans shape.better.symm
  · exact same.worse.trans shape.worse.symm

theorem start_eq (game : Game) (scale : Float) (shape : Shape game scale) :
    Path.start (.ofGame game) config =
      if Arithmetic.le ((1 : Float) - 0) (config.tieTolerance * Arithmetic.max scale Arithmetic.one) then
        .ok (.error (.tiedPayoffs 0 0 1 1))
      else
        .ok (.ok ⟨.uniform (.ofGame game), Arithmetic.one, Arithmetic.one, [⟨[[0], [1]]⟩], some .start, 0, 0⟩) := by
  have ordered : Ranking.ranksBefore ((1 : Float), 0) (0, 1) = true := by decide +kernel
  have started := Path.lone_pair_start (.ofGame game) config shape.dims 1 0 ((to_option_eq_some _ _).mp shape.values)
    ordered
  rwa [show (PayoffTable.ofGame game : PayoffTable Float).scale = scale from shape.scale] at started

end Choice

-- Every outcome is used, so that the second run need not be made.
theorem solve_reads_payoffs_and_scale_shared :
    ∃ one other, (blank [2]).performAll Choice.history = .ok one ∧ (blank [2]).performAll Choice.shared = .ok other ∧
      one.PaysAlike other ∧ one.NoneUnused ∧ other.NoneUnused ∧
      ∃ ending, one.solve Config.standard (StatusSink.silent : StatusSink Id Float) = .ok ending ∧
        other.solve Config.standard (StatusSink.silent : StatusSink Id Float) =
          .ok (ending.withTable (.ofGame other)) := by
  obtain ⟨one, made, shape, cells, outcomes⟩ : ∃ game, (blank [2]).performAll Choice.history = .ok game ∧
      Choice.Shape game 1 ∧ game.cells = #[some 0, none] ∧ game.outcomes.size = 1 :=
    ⟨_, rfl, ⟨rfl, rfl, rfl, by decide +kernel, by decide +kernel⟩, rfl, rfl⟩
  obtain ⟨other, otherMade, otherShape, otherCells, otherOutcomes⟩ : ∃ game,
      (blank [2]).performAll Choice.shared = .ok game ∧
      Choice.Shape game 1 ∧ game.cells = #[some 1, some 0] ∧ game.outcomes.size = 2 :=
    ⟨_, rfl, ⟨rfl, rfl, rfl, by decide +kernel, by decide +kernel⟩, rfl, rfl⟩
  have used : one.NoneUnused := by
    intro place below
    have first : place = 0 := by omega
    exact ⟨0, by rw [cells, first]; rfl⟩
  have otherUsed : other.NoneUnused := by
    intro place below
    rw [otherOutcomes] at below
    interval_cases place
    · exact ⟨1, by rw [otherCells]; rfl⟩
    · exact ⟨0, by rw [otherCells]; rfl⟩
  have reachable : one.Reachable := ⟨[2], _, _, rfl, made⟩
  have valid := reachable_well_formed one reachable
  have alike := Choice.alike one other _ _ shape otherShape valid
  obtain ⟨solves, scales⟩ := solve_reads_payoffs_and_scale (m := Id) one other reachable ⟨[2], _, _, rfl, otherMade⟩
    alike
  obtain ⟨scale, -⟩ := scales used otherUsed
  have same := solves Config.standard StatusSink.silent
    (congrArg (fun scale => Arithmetic.max scale Arithmetic.one) scale)
  obtain ⟨endings, ended⟩ := PayoffTable.solve_succeeds _ (PayoffTable.of_game_complete one valid)
    (Dimensions.words_of_count one.dimensions valid.addressable) Config.standard (StatusSink.silent : StatusSink Id Float)
  rw [← solve] at ended
  refine ⟨one, other, made, otherMade, alike, used, otherUsed, _, ended, ?_⟩
  rw [same, ended]
  rfl

-- The game without the unused outcome is solved, and the one with it is not.
theorem unused_outcome_ties_payoffs :
    ∃ one other, (blank [2]).performAll Choice.history = .ok one ∧ (blank [2]).performAll Choice.unused = .ok other ∧
      one.PaysAlike other ∧
      (∃ report events, one.solve Choice.config (StatusSink.silent : StatusSink Id Float) = .ok ⟨.ok report, events⟩) ∧
      other.solve Choice.config (StatusSink.silent : StatusSink Id Float) =
        .ok ⟨.error (.tiedPayoffs 0 0 1 1), []⟩ := by
  obtain ⟨one, made, shape⟩ : ∃ game, (blank [2]).performAll Choice.history = .ok game ∧ Choice.Shape game 1 :=
    ⟨_, rfl, rfl, rfl, rfl, by decide +kernel, by decide +kernel⟩
  obtain ⟨other, otherMade, otherShape⟩ : ∃ game, (blank [2]).performAll Choice.unused = .ok game ∧
      Choice.Shape game 2 := ⟨_, rfl, rfl, rfl, rfl, by decide +kernel, by decide +kernel⟩
  have valid := reachable_well_formed one ⟨[2], _, _, rfl, made⟩
  have begun := Choice.start_eq one _ shape
  have tied := Choice.start_eq other _ otherShape
  rw [if_neg (by decide +kernel)] at begun
  rw [if_pos (by decide +kernel)] at tied
  refine ⟨one, other, made, otherMade, Choice.alike one other _ _ shape otherShape valid, ?_, ?_⟩
  · rw [solve, PayoffTable.solve, begun]
    exact ⟨_, _, rfl⟩
  · rw [solve, PayoffTable.solve, tied]
    rfl

end Game

end NormalForm
