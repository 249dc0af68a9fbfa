import Mathlib.Data.Set.Function
import Mathlib.Order.Interval.Set.Defs
import NormalForm.Proofs.Game.Operations
import NormalForm.Proofs.Profile.Odometer

/-!
The cells of a game and its strategy vectors. Every vector has a cell of its own, and every cell a vector. The
profiles that keep to some strategies are walked through in the order of the cells, none of them twice and none left
out.
-/

set_option autoImplicit false

namespace NormalForm

namespace Dimensions

theorem locate_bijective (dims : Dimensions) :
    Set.BijOn dims.locate {strategies | dims.InRange strategies} (Except.ok '' Set.Iio dims.count) := by
  refine ⟨fun strategies range => ?_, fun a left b right same => ?_, ?_⟩
  · exact ⟨_, dims.index_lt_count strategies range, (dims.locate_in_range strategies range).symm⟩
  · rw [dims.locate_in_range a left, dims.locate_in_range b right] at same
    exact dims.index_injective a b left right (Except.ok.inj same)
  · rintro _ ⟨index, below, rfl⟩
    have range := dims.vector_at_in_range index below
    refine ⟨dims.vectorAt index, range, ?_⟩
    rw [dims.locate_in_range _ range, dims.index_vector_at index below]

theorem locate_eq_sum (dims : Dimensions) (strategies : List Nat) (range : dims.InRange strategies) :
    dims.locate strategies =
      .ok (∑ player ∈ Finset.range dims.length, strategies.getD player 0 * (dims.take player).prod) := by
  rw [dims.locate_in_range strategies range, index_eq_sum]
  simp only [contribution, stride, count_eq_prod]

theorem locate_lt_iff (dims : Dimensions) (a b : List Nat) (left : dims.InRange a) (right : dims.InRange b) (i j : Nat)
    (first : dims.locate a = .ok i) (second : dims.locate b = .ok j) : i < j ↔ Precedes a b := by
  cases (dims.locate_in_range a left).symm.trans first
  cases (dims.locate_in_range b right).symm.trans second
  exact dims.index_lt_iff a b left right

end Dimensions

namespace Game

theorem flat_index_in_range (game : Game) (strategies : List Nat) (valid : game.dimensions.InRange strategies) :
    game.flatIndex strategies = .ok (game.dimensions.index strategies) :=
  game.dimensions.locate_in_range strategies valid

-- A player without strategies leaves no vectors and no cells. Where a table is too large to be addressed there is no
-- game; the vectors are numbered alike.
theorem flat_index_numbers_cells (dims : Dimensions) (cells : Nat) (fits : dims.product? = some cells) :
    (dims.count?.isSome → ∃ game, ofDimensions dims = .ok game) ∧
    (∀ game, ofDimensions dims = .ok game → game.flatIndex = dims.locate ∧ game.cells.size = cells) ∧
    Set.BijOn dims.locate {strategies | dims.InRange strategies} (Except.ok '' Set.Iio cells) ∧
    (∀ strategies, dims.InRange strategies → dims.locate strategies =
      .ok (∑ player ∈ Finset.range dims.length, strategies.getD player 0 * (dims.take player).prod)) ∧
    ∀ a b, dims.InRange a → dims.InRange b → ∀ i j, dims.locate a = .ok i → dims.locate b = .ok j →
      (i < j ↔ Dimensions.Precedes a b) := by
  have count : cells = dims.count := (dims.product_from_count 1 cells fits).trans (Nat.one_mul _)
  refine ⟨fun counted => ⟨blank dims, of_dimensions_counted dims counted⟩, fun game made => ?_,
    count ▸ dims.locate_bijective, dims.locate_eq_sum, dims.locate_lt_iff⟩
  · obtain ⟨counted, rfl⟩ := of_dimensions_ok dims game made
    have same := blank_dimensions dims
    refine ⟨funext fun strategies => congrArg (Dimensions.locate · strategies) same, ?_⟩
    rw [(blank_well_formed dims counted).cells, same, count]

-- The player in the middle has one strategy, which takes part in every index with zero.
theorem flat_index_numbers_cells_single :
    ∃ game, ofDimensions [3, 1, 2] = .ok game ∧
      Set.BijOn game.flatIndex {strategies | Dimensions.InRange [3, 1, 2] strategies} (Except.ok '' Set.Iio 6) ∧
      game.flatIndex [2, 0, 0] = .ok 2 ∧ game.flatIndex [0, 0, 1] = .ok 3 ∧
      Dimensions.Precedes [2, 0, 0] [0, 0, 1] := by
  obtain ⟨some, games, bijective, numeral, order⟩ := flat_index_numbers_cells [3, 1, 2] 6 rfl
  obtain ⟨game, made⟩ := some rfl
  obtain ⟨locates, -⟩ := games game made
  rw [← locates] at bijective numeral order
  have first := numeral [2, 0, 0] (by decide)
  have second := numeral [0, 0, 1] (by decide)
  exact ⟨game, made, bijective, first, second,
    (order [2, 0, 0] [0, 0, 1] (by decide) (by decide) 2 3 first second).mp (by decide)⟩

/-! Walks over the profiles. -/

theorem fixed_known (game : Game) (fixed : List (Nat × Nat)) (known : ∀ pair ∈ fixed, pair.2 < game.strategyCount pair.1) :
    ∃ choices, game.dimensions.fix fixed = .ok choices ∧ game.dimensions.Held choices :=
  game.dimensions.fix_held fixed fun pair listed => game.dimensions.player_of_strategy _ _ (known pair listed)

theorem contingencies_walk_cells (game : Game) (reachable : game.Reachable) (fixed : List (Nat × Nat))
    (distinct : (fixed.map Prod.fst).Nodup) (known : ∀ pair ∈ fixed, pair.2 < game.strategyCount pair.1) :
    ∃ odometer profiles, Odometer.start game.dimensions fixed = .ok odometer ∧
      odometer.Yields game.dimensions profiles ∧ game.dimensions.contingencies fixed = .ok profiles ∧
      (∀ strategies, strategies ∈ profiles.map Profile.strategies ↔
        game.dimensions.InRange strategies ∧ ∀ pair ∈ fixed, strategies[pair.1]? = some pair.2) ∧
      (profiles.map Profile.strategies).Nodup ∧
      (profiles.map Profile.index).Pairwise (· < ·) ∧
      (∀ profile ∈ profiles, game.flatIndex profile.strategies = .ok profile.index) ∧
      profiles.length = ∏ player ∈ Finset.range game.dimensions.length with player ∉ fixed.map Prod.fst,
        game.strategyCount player ∧
      (0 ∈ game.dimensions → profiles = []) ∧
      (fixed = [] → profiles.map Profile.index = List.range game.cells.size) := by
  have valid := reachable_well_formed game reachable
  obtain ⟨choices, chosen, held⟩ := game.fixed_known fixed known
  let vectors := Dimensions.vectors (game.dimensions.zip choices)
  have strategies : (vectors.map (Profile.ofVector game.dimensions)).map Profile.strategies = vectors := by
    rw [List.map_map]
    exact List.map_id vectors
  have indices : (vectors.map (Profile.ofVector game.dimensions)).map Profile.index = vectors.map game.dimensions.index := by
    rw [List.map_map]
    rfl
  have members (strategies : List Nat) : strategies ∈ vectors ↔
      game.dimensions.InRange strategies ∧ ∀ pair ∈ fixed, strategies[pair.1]? = some pair.2 := by
    rw [game.dimensions.mem_vectors choices held]
    exact and_congr_right fun range => game.dimensions.agrees_iff fixed choices chosen distinct strategies
      (Dimensions.in_range_length _ strategies range)
  have ascending := game.dimensions.vectors_ascend choices held
  refine ⟨.before game.dimensions choices, vectors.map (Profile.ofVector game.dimensions), ?_,
    Odometer.before_yields _ choices held, ?_, ?_, ?_, ?_, ?_, ?_, ?_, ?_⟩
  · rw [Odometer.start_eq, chosen]
    rfl
  · rw [Dimensions.contingencies_eq, chosen]
    rfl
  · rwa [strategies]
  · rw [strategies]
    exact ascending.imp fun less same => Nat.ne_of_lt less (congrArg game.dimensions.index same)
  · rw [indices]
    exact List.pairwise_map.mpr ascending
  · intro profile listed
    obtain ⟨vector, member, rfl⟩ := List.mem_map.mp listed
    exact game.flat_index_in_range vector ((members vector).mp member).1
  · rw [List.length_map, Dimensions.vectors_length _ choices held.length_eq, Dimensions.unchosen_players _ fixed choices chosen]
    exact Finset.prod_congr rfl fun player _ => List.getD_eq_getElem?_getD
  · intro empty
    refine List.map_eq_nil_iff.mpr (List.eq_nil_iff_forall_not_mem.mpr fun vector member => ?_)
    have below := Dimensions.index_lt_count _ vector ((members vector).mp member).1
    exact Nat.lt_irrefl 0 (Dimensions.positive_of_count _ (Nat.zero_lt_of_lt below) 0 empty)
  · rintro rfl
    cases chosen
    rw [indices, valid.cells]
    exact game.dimensions.free_indices

-- The second player of three is held at the third strategy.
theorem contingencies_walk_cells_held :
    ∃ game, ofDimensions [2, 3, 2] = .ok game ∧ ∃ profiles,
      game.dimensions.contingencies [(1, 2)] = .ok profiles ∧ profiles.map Profile.index = [4, 5, 10, 11] ∧
      ∀ strategies, strategies ∈ profiles.map Profile.strategies ↔
        Dimensions.InRange [2, 3, 2] strategies ∧ ∀ pair ∈ [(1, 2)], strategies[pair.1]? = some pair.2 := by
  obtain ⟨-, profiles, -, -, listed, members, -⟩ :=
    contingencies_walk_cells (blank [2, 3, 2]) ⟨[2, 3, 2], _, [], rfl, rfl⟩ [(1, 2)] (by decide) (by decide)
  have shown : Dimensions.contingencies [2, 3, 2] [(1, 2)] =
      .ok [⟨[0, 2, 0], 4⟩, ⟨[1, 2, 0], 5⟩, ⟨[0, 2, 1], 10⟩, ⟨[1, 2, 1], 11⟩] := rfl
  cases shown.symm.trans listed
  exact ⟨_, rfl, _, listed, rfl, members⟩

end Game

end NormalForm
