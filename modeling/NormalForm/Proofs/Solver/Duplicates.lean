import NormalForm.Proofs.Binary64.Nearest
import NormalForm.Proofs.Binary64.Signs
import NormalForm.Proofs.Mixed.Duplicates
import NormalForm.Proofs.Mixed.Sizes
import NormalForm.Proofs.Ranking.Ties
import NormalForm.Proofs.Solver.Feasibility
import NormalForm.Proofs.Solver.Representation

/-!
Strategies that cannot be told apart are not ranked. Where their value is a finite number, and the tolerance
of ties is a number, a run ends with a tie before it starts; where their payoffs overflow, it can rank them.
-/

set_option autoImplicit false

namespace NormalForm

open Binary64

-- The strategies pay the player the same exact amount, whatever the others play.
def Game.Duplicates (game : Game) (player first second : Nat) : Prop :=
  ∀ strategies, game.dimensions.InRange strategies →
    game.payoffAt (game.dimensions.index (strategies.set player first)) player =
      game.payoffAt (game.dimensions.index (strategies.set player second)) player

theorem PayoffTable.duplicates_of_game {α : Type} [Arithmetic α] (game : Game) (valid : game.WellFormed)
    (player first second : Nat) (duplicates : game.Duplicates player first second) :
    (PayoffTable.ofGame game : PayoffTable α).Duplicates player first second := by
  intro strategies inRange
  rw [payoff_of_game game valid, payoff_of_game game valid]
  exact congrArg _ (duplicates strategies inRange)

namespace Path

theorem initial_ranking_failure {α : Type} [Arithmetic α] (profile : Mixed α) (tolerance : α) (player : Nat)
    (failure : SolveError α) (run : initialRanking profile tolerance player = .ok (.error failure)) :
    ∃ a b value, failure = .tiedPayoffs player a b value := by
  obtain ⟨values, -, run⟩ := bind_eq_ok.mp run
  obtain ⟨outcome, -, run⟩ := bind_eq_ok.mp run
  cases outcome with
  | ok ranking => cases run
  | error pair =>
      obtain ⟨value, -, run⟩ := bind_eq_ok.mp run
      cases run
      exact ⟨_, _, _, rfl⟩

-- Players are ranked in order, so that a tie is found unless there is one before it.
theorem initial_rankings_tie {α : Type} [Arithmetic α] (profile : Mixed α) (complete : profile.Complete)
    (tolerance : α) (player : Nat) (failure : SolveError α)
    (tied : initialRanking profile tolerance player = .ok (.error failure)) (players : List Nat)
    (ordered : players.Pairwise (· < ·)) (listed : player ∈ players) :
    ∃ other a b value, other ≤ player ∧
      initialRankings profile tolerance players = .ok (.error (.tiedPayoffs other a b value)) := by
  induction players with
  | nil => cases listed
  | cons next rest ih =>
      obtain ⟨below, ordered⟩ := List.pairwise_cons.mp ordered
      have early : next ≤ player := by
        rcases List.mem_cons.mp listed with rfl | later
        · exact Nat.le_refl _
        · exact Nat.le_of_lt (below player later)
      obtain ⟨outcome, run, -⟩ := initial_ranking_succeeds profile complete tolerance next
      simp only [initialRankings, run, ok_bind]
      cases outcome with
      | error other =>
          obtain ⟨a, b, value, rfl⟩ := initial_ranking_failure profile tolerance next other run
          exact ⟨next, a, b, value, early, rfl⟩
      | ok ranking =>
          have later : player ∈ rest := by
            rcases List.mem_cons.mp listed with rfl | later
            · cases tied.symm.trans run
            · exact later
          obtain ⟨other, a, b, value, within, ended⟩ := ih ordered later
          exact ⟨other, a, b, value, within, by simp only [ended, ok_bind]⟩

theorem initial_ranking_of_duplicates (profile : Mixed Float) (complete : profile.Complete) (tolerance : Float)
    (tolerant : Arithmetic.le Arithmetic.zero tolerance = true) (player first second : Nat)
    (different : first ≠ second) (firstBelow : first < profile.table.strategyCount player)
    (secondBelow : second < profile.table.strategyCount player)
    (duplicates : profile.table.Duplicates player first second) (value : Float)
    (worth : profile.strategyValue player first = .ok value) (finite : value.isFinite = true) :
    ∃ failure, initialRanking profile tolerance player = .ok (.error failure) := by
  obtain ⟨outcome, run, -⟩ := initial_ranking_succeeds profile complete tolerance player
  have again := run
  obtain ⟨values, valued, ranked⟩ := bind_eq_ok.mp run
  have each := map_m_each _ _ _ valued
  have read (strategy : Nat) (below : strategy < profile.table.strategyCount player)
      (same : profile.strategyValue player strategy = .ok value) : values[strategy]? = some value := by
    have length := each.length_eq
    rw [List.length_range] at length
    have here := each.get (by rwa [List.length_range]) (length ▸ below)
    rw [List.get_eq_getElem, List.getElem_range, same] at here
    rw [List.getElem?_eq_getElem (length ▸ below)]
    exact congrArg some (Except.ok.inj here).symm
  obtain ⟨tie, tied⟩ := Ranking.by_payoff_of_equals tolerance value finite tolerant values first second different
    (read first firstBelow worth) (read second secondBelow
      ((profile.strategy_value_duplicates player first second firstBelow secondBelow duplicates).trans worth))
  rw [tied, ok_bind] at ranked
  obtain ⟨tiedValue, -, ranked⟩ := bind_eq_ok.mp ranked
  cases ranked
  exact ⟨_, again⟩

end Path

namespace Game

-- Overflow takes away neither the value of the strategy nor the tolerance of ties.
structure Measured (game : Game) (config : Config Float) (player strategy : Nat) : Prop where
  value : ∀ value : Float, (Mixed.uniform (.ofGame game)).strategyValue player strategy = .ok value →
    value.isFinite = true
  tolerance : IsNumber (config.tieTolerance * Arithmetic.max game.payoffScale Arithmetic.one)

theorem table_payoffs_at_most (game : Game) (power : Nat) (high : power ≤ 1021)
    (payoffs : ∀ outcome ∈ game.outcomes, ∀ payoff ∈ outcome.payoffs, |payoff| ≤ 2 ^ power) (index player : Nat)
    (payoff : Float) (paid : (PayoffTable.ofGame game).payoff index player = .ok payoff) :
    AtMost (power + 2) payoff := by
  rw [PayoffTable.of_game_payoff] at paid
  split at paid
  · cases paid
  · split at paid
    · cases paid
      exact nearest_at_most 0 power high (by simp)
    · rename_i outcome found
      obtain ⟨place, -, found⟩ := Option.bind_eq_some_iff.mp found
      obtain ⟨exact, listed, rfl⟩ := List.mem_map.mp (List.mem_of_getElem? ((entry_eq_ok _ _ _).mp paid))
      exact nearest_at_most exact power high (payoffs outcome (Array.mem_of_getElem? found) exact listed)

theorem payoff_scale_at_most (game : Game) (power : Nat) (high : power ≤ 1021)
    (payoffs : ∀ outcome ∈ game.outcomes, ∀ payoff ∈ outcome.payoffs, |payoff| ≤ 2 ^ power) :
    AtMost (power + 2) (game.payoffScale : Float) := by
  apply Mixed.largest_at_most
  intro value listed
  obtain ⟨outcome, member, listed⟩ := List.mem_flatMap.mp listed
  obtain ⟨payoff, inPayoffs, rfl⟩ := List.mem_map.mp listed
  have near := nearest_at_most payoff power high (payoffs outcome (Array.mem_toList_iff.mp member) payoff inPayoffs)
  exact abs_at_most _ (by omega) _ near

-- Payoffs of any usual size do not overflow.
theorem measured_of_payoffs (game : Game) (strategies : ∀ d ∈ game.dimensions, 0 < d) (config : Config Float)
    (nonneg : Arithmetic.le Arithmetic.zero config.tieTolerance = true)
    (payoffs : ∀ outcome ∈ game.outcomes, ∀ payoff ∈ outcome.payoffs, |payoff| ≤ 2 ^ 900) (player strategy : Nat) :
    game.Measured config player strategy := by
  constructor
  · intro value worth
    have shares := Mixed.uniform_at_most (.ofGame game) strategies
    have bounded := Mixed.conditional_at_most (Mixed.uniform (.ofGame game)) player 902 (by decide) (by decide) shares
      (fun index payoff paid => table_payoffs_at_most game 900 (by decide) payoffs index player payoff paid) _ value worth
    exact at_most_finite _ _ bounded
  · have bounded := payoff_scale_at_most game 900 (by decide) payoffs
    exact tolerance_is_number _ _ nonneg (at_most_finite _ _ bounded)

theorem duplicates_are_not_ranked {m : Type → Type} [Monad m] (game : Game) (reachable : game.Reachable)
    (strategies : ∀ d ∈ game.dimensions, 0 < d) (player first second count : Nat)
    (known : game.dimensions[player]? = some count) (firstBelow : first < count) (secondBelow : second < count)
    (different : first ≠ second) (duplicates : game.Duplicates player first second) (config : Config Float)
    (nonneg : Arithmetic.le Arithmetic.zero config.tieTolerance = true) (sink : StatusSink m Float) :
    (game.Measured config player first →
      ∃ other a b value, other ≤ player ∧
        game.solve config sink = pure (.ok { result := .error (.tiedPayoffs other a b value), events := [] })) ∧
    ((∀ outcome ∈ game.outcomes, ∀ payoff ∈ outcome.payoffs, |payoff| ≤ 2 ^ 900) →
      game.Measured config player first) := by
  have valid := reachable_well_formed game reachable
  refine ⟨?_, fun payoffs => measured_of_payoffs game strategies config nonneg payoffs player first⟩
  intro measured
  have complete := Mixed.uniform_complete (PayoffTable.ofGame game : PayoffTable Float) (PayoffTable.of_game_complete game valid)
  have counted : (PayoffTable.ofGame game : PayoffTable Float).strategyCount player = count :=
    PayoffTable.strategy_count_known _ player count known
  have tolerant := tolerance_not_negative config.tieTolerance game.payoffScale nonneg measured.tolerance
  obtain ⟨value, worth⟩ := Mixed.strategy_value_succeeds _ complete player first (counted.symm ▸ firstBelow)
  obtain ⟨failure, tied⟩ := Path.initial_ranking_of_duplicates _ complete _ tolerant player first second different
    (counted.symm ▸ firstBelow) (counted.symm ▸ secondBelow)
    (PayoffTable.duplicates_of_game game valid player first second duplicates) value worth (measured.value value worth)
  have inside : player < game.dimensions.length := (List.getElem?_eq_some_iff.mp known).1
  obtain ⟨other, a, b, tiedValue, within, ended⟩ := Path.initial_rankings_tie _ complete _ player failure tied
    (List.range game.dimensions.length) List.pairwise_lt_range (List.mem_range.mpr inside)
  refine ⟨other, a, b, tiedValue, within, ?_⟩
  have players : game.dimensions ≠ [] := List.ne_nil_of_length_pos (Nat.zero_lt_of_lt inside)
  have begun := Path.start_tied (PayoffTable.ofGame game) config players strategies _ ended
  rw [solve, PayoffTable.solve, begun]

/-! Two players with two strategies each. -/

theorem payoff_at_row (game : Game) (index place player : Nat) (held : game.cells[index]? = some (some place)) :
    game.payoffAt index player =
      entry (game.outcomes.toList.map Outcome.payoffs) place >>= fun row => entry row player := by
  rw [payoffAt, Game.cell, held, entry_map]
  change (entry game.outcomes.toList place >>= fun outcome => entry outcome.payoffs player) = _
  cases entry game.outcomes.toList place with
  | error fault => rfl
  | ok outcome => rfl

theorem duplicates_of_cells (game : Game) (dims : game.dimensions = [2, 2])
    (left : game.payoffAt 0 0 = game.payoffAt 1 0) (right : game.payoffAt 2 0 = game.payoffAt 3 0) :
    game.Duplicates 0 0 1 := by
  intro strategies inRange
  rw [dims] at inRange ⊢
  obtain ⟨strategy, others, below, later, rfl⟩ := List.forall₂_cons_right_iff.mp inRange
  obtain ⟨other, none, small, last, rfl⟩ := List.forall₂_cons_right_iff.mp later
  cases last
  interval_cases other
  · exact left
  · exact right

-- What the first player does decides nothing.
def twins : List Operation :=
  [.newOutcome ⟨1⟩, .setPayoff ⟨1⟩ 0 (1 / 3), .newOutcome ⟨2⟩, .setPayoff ⟨2⟩ 0 (-7 / 10), .setPayoff ⟨2⟩ 1 5,
    .setOutcome [0, 0] (some ⟨1⟩), .setOutcome [1, 0] (some ⟨1⟩), .setOutcome [0, 1] (some ⟨2⟩),
    .setOutcome [1, 1] (some ⟨2⟩)]

theorem duplicates_are_not_ranked_twins :
    ∃ game, (blank [2, 2]).performAll twins = .ok game ∧ game.Duplicates 0 0 1 ∧
      (∀ outcome ∈ game.outcomes, ∀ payoff ∈ outcome.payoffs, |payoff| ≤ 2 ^ 900) ∧
      ∃ a b value, game.solve Config.standard (StatusSink.silent : StatusSink Id Float) =
        .ok { result := .error (.tiedPayoffs 0 a b value), events := [] } := by
  obtain ⟨game, made, dims, left, right, payoffs⟩ : ∃ game, (blank [2, 2]).performAll twins = .ok game ∧
      game.dimensions = [2, 2] ∧ game.payoffAt 0 0 = game.payoffAt 1 0 ∧ game.payoffAt 2 0 = game.payoffAt 3 0 ∧
      game.outcomes.toList.map Outcome.payoffs = [[1 / 3, 0], [-7 / 10, 5]] := ⟨_, rfl, rfl, rfl, rfl, rfl⟩
  have duplicates := duplicates_of_cells game dims left right
  have small : ∀ outcome ∈ game.outcomes, ∀ payoff ∈ outcome.payoffs, |payoff| ≤ 2 ^ 900 := by
    intro outcome member payoff listed
    have all : ∀ row ∈ ([[1 / 3, 0], [-7 / 10, 5]] : List (List Rat)), ∀ payoff ∈ row, |payoff| ≤ 2 ^ 3 := by
      decide +kernel
    have row := payoffs ▸ List.mem_map_of_mem (Array.mem_toList_iff.mpr member)
    exact (all _ row payoff listed).trans (pow_le_pow_right₀ one_le_two (by decide))
  obtain ⟨rejected, measured⟩ := duplicates_are_not_ranked game ⟨[2, 2], _, _, rfl, made⟩ (by simp [dims]) 0 0 1 2
    (by simp [dims]) (by decide) (by decide) (by decide) duplicates Config.standard (by decide +kernel)
    (StatusSink.silent : StatusSink Id Float)
  obtain ⟨other, a, b, value, first, ended⟩ := rejected (measured small)
  obtain rfl := Nat.le_zero.mp first
  exact ⟨game, made, duplicates, small, a, b, value, ended⟩

/-! Payoffs that overflow. -/

theorem closes_not_tied (table : PayoffTable Float) (config : Config Float) (path : Path Float)
    (begun : Path.start table config = .ok (.ok path)) (ending : Ending Float)
    (closes : Run.Closes table config ending) (player first second : Nat) (value : Float) :
    ending.result ≠ .error (.tiedPayoffs player first second value) := by
  intro tied
  cases closes with
  | unstarted failure unbegun => cases begun.symm.trans unbegun
  | finished run reached => cases tied
  | cancelled run reached => cases tied
  | failed run ending reached above taken =>
      obtain ⟨failure, failed, fails⟩ := Run.step_ends config run ending taken
      cases failed.symm.trans tied
      exact Path.fails_at config _ run.path _ fails

-- Larger than every finite number.
def giant : Rat := 10 ^ 200 * 10 ^ 200

-- What a player earns is up to the other, and is infinite one way or the other.
def giants : List Operation :=
  [.newOutcome ⟨1⟩, .setPayoff ⟨1⟩ 0 giant, .setPayoff ⟨1⟩ 1 giant, .setOutcome [0, 0] (some ⟨1⟩),
    .newOutcome ⟨2⟩, .setPayoff ⟨2⟩ 0 giant, .setPayoff ⟨2⟩ 1 (-giant), .setOutcome [1, 0] (some ⟨2⟩),
    .newOutcome ⟨3⟩, .setPayoff ⟨3⟩ 0 (-giant), .setPayoff ⟨3⟩ 1 giant, .setOutcome [0, 1] (some ⟨3⟩),
    .newOutcome ⟨4⟩, .setPayoff ⟨4⟩ 0 (-giant), .setPayoff ⟨4⟩ 1 (-giant), .setOutcome [1, 1] (some ⟨4⟩)]

-- Two values that are no numbers are ranked by the numbers of their strategies.
theorem by_payoff_of_no_numbers (tolerance : Float) :
    Ranking.byPayoff [0.0 / 0.0, 0.0 / 0.0] tolerance = .ok (.ok ⟨[[0], [1]]⟩) := by
  have ordered : Ranking.ranksBefore ((0.0 / 0.0 : Float), 0) (0.0 / 0.0, 1) = true := by decide +kernel
  have sorted : Ranking.descending [(0.0 / 0.0 : Float), 0.0 / 0.0] = [(0.0 / 0.0, 0), (0.0 / 0.0, 1)] :=
    List.mergeSort_of_pairwise (by simp [ordered])
  have apart : Arithmetic.le ((0.0 / 0.0 : Float) - 0.0 / 0.0) tolerance ≠ true := by
    intro below
    have number := (is_number_iff _).mpr ((float_le_iff _ _).mp below).1
    exact absurd number (by decide +kernel)
  have none : Ranking.firstTie? tolerance [((0.0 / 0.0 : Float), 0), (0.0 / 0.0, 1)] = none := by
    rw [Ranking.firstTie?, if_neg apart]
    rfl
  simp only [Ranking.byPayoff, sorted, none]
  rfl

theorem start_of_no_numbers (table : PayoffTable Float) (config : Config Float) (dims : table.dims = [2, 2])
    (one : ((List.range 2).mapM ((Mixed.uniform table).strategyValue 0)).toOption = some [0.0 / 0.0, 0.0 / 0.0])
    (other : ((List.range 2).mapM ((Mixed.uniform table).strategyValue 1)).toOption = some [0.0 / 0.0, 0.0 / 0.0]) :
    ∃ path, Path.start table config = .ok (.ok path) := by
  have ranked (tolerance : Float) (player : Nat) (known : [2, 2][player]? = some 2)
      (values : ((List.range 2).mapM ((Mixed.uniform table).strategyValue player)).toOption =
        some [0.0 / 0.0, 0.0 / 0.0]) :
      Path.initialRanking (.uniform table) tolerance player = .ok (.ok ⟨[[0], [1]]⟩) := by
    have count : (Mixed.uniform table).table.strategyCount player = 2 :=
      PayoffTable.strategy_count_known table player 2 (dims ▸ known)
    rw [Path.initialRanking, count, (to_option_eq_some _ _).mp values, ok_bind, by_payoff_of_no_numbers, ok_bind]
  have players : List.range table.dims.length = [0, 1] := by rw [dims]; rfl
  refine Path.start_ranked table config (by simp [dims]) (by simp [dims]) [⟨[[0], [1]]⟩, ⟨[[0], [1]]⟩] ?_
  simp only [players, Path.initialRankings, ranked _ 0 rfl one, ranked _ 1 rfl other, ok_bind]

-- Neither player's strategies can be told apart, and yet the default settings end without a tie.
theorem overflowing_duplicates_are_ranked :
    ∃ game, (blank [2, 2]).performAll giants = .ok game ∧ game.Duplicates 0 0 1 ∧
      ∃ ending, game.solve Config.standard (StatusSink.silent : StatusSink Id Float) = .ok ending ∧
        ∀ player first second value, ending.result ≠ .error (.tiedPayoffs player first second value) := by
  obtain ⟨game, made, dims, cells, payoffs, one, other⟩ : ∃ game, (blank [2, 2]).performAll giants = .ok game ∧
      game.dimensions = [2, 2] ∧ game.cells = #[some 0, some 1, some 2, some 3] ∧
      game.outcomes.toList.map Outcome.payoffs =
        [[giant, giant], [giant, -giant], [-giant, giant], [-giant, -giant]] ∧
      ((List.range 2).mapM ((Mixed.uniform (.ofGame game)).strategyValue 0)).toOption =
        some [(0.0 / 0.0 : Float), 0.0 / 0.0] ∧
      ((List.range 2).mapM ((Mixed.uniform (.ofGame game)).strategyValue 1)).toOption =
        some [(0.0 / 0.0 : Float), 0.0 / 0.0] := ⟨_, rfl, rfl, rfl, rfl, by decide +kernel, by decide +kernel⟩
  have earns (place : Nat) (inside : place < 4) : game.payoffAt place 0 =
      entry [[giant, giant], [giant, -giant], [-giant, giant], [-giant, -giant]] place >>= fun row => entry row 0 := by
    rw [payoff_at_row game place place 0 (by rw [cells]; interval_cases place <;> rfl), payoffs]
  have duplicates := duplicates_of_cells game dims
    ((earns 0 (by decide)).trans (earns 1 (by decide)).symm) ((earns 2 (by decide)).trans (earns 3 (by decide)).symm)
  have valid := reachable_well_formed game ⟨[2, 2], _, _, rfl, made⟩
  obtain ⟨path, begun⟩ := start_of_no_numbers (.ofGame game) Config.standard dims one other
  obtain ⟨endings, same⟩ := PayoffTable.solve_succeeds _ (PayoffTable.of_game_complete game valid)
    (Dimensions.words_of_count game.dimensions valid.addressable) Config.standard
    (StatusSink.silent : StatusSink Id Float)
  exact ⟨game, made, duplicates, endings.val, same,
    closes_not_tied _ _ path begun endings.val endings.property⟩

end Game

end NormalForm
