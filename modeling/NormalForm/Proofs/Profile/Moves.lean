import NormalForm.Proofs.Game.Operations
import NormalForm.Proofs.Profile.Odometer

/-!
Profiles that change one strategy at a time. In whatever order the changes come, the index that is carried along is
the index of the strategies as they are then, so that a profile leads to the same cell as its vector.
-/

set_option autoImplicit false

namespace NormalForm

namespace Profile

-- Changes one after the other, each of a player to a strategy.
def moveAll (dims : Dimensions) (start : Profile) (moves : List (Nat × Nat)) : Except Fault Profile :=
  moves.foldlM (fun profile move => profile.move dims move.1 move.2) start

-- The same changes to the strategies alone.
def assignAll (strategies : List Nat) (moves : List (Nat × Nat)) : List Nat :=
  moves.foldl (fun changed move => changed.set move.1 move.2) strategies

-- Every strategy exists, and the index counts what each of them contributes.
structure Indexed (dims : Dimensions) (profile : Profile) : Prop where
  range : dims.InRange profile.strategies
  index : profile.index = dims.index profile.strategies

theorem first_indexed (dims : Dimensions) (positive : ∀ d ∈ dims, 0 < d) : Indexed dims (first dims) := by
  constructor
  · rw [first, Dimensions.InRange, List.forall₂_map_left_iff, List.forall₂_same]
    exact positive
  · exact dims.index_zeros.symm

theorem of_strategies_indexed (dims : Dimensions) (strategies : List Nat) (profile : Profile)
    (made : ofStrategies dims strategies = .ok profile) : Indexed dims profile := by
  obtain ⟨index, located, result⟩ := bind_eq_ok.mp made
  cases result
  by_cases range : dims.InRange strategies
  · rw [dims.locate_in_range strategies range] at located
    exact ⟨range, (Except.ok.inj located).symm⟩
  · obtain ⟨fault, failed⟩ := dims.locate_out_of_range strategies range
    cases failed.symm.trans located

theorem indexed_made (dims : Dimensions) (profile : Profile) (indexed : Indexed dims profile) :
    ofStrategies dims profile.strategies = .ok profile := by
  rw [ofStrategies, dims.locate_in_range _ indexed.range, ok_bind, ← indexed.index]

-- The contribution of the old strategy is part of the index, so that it can be taken away.
theorem move_indexed (dims : Dimensions) (profile : Profile) (indexed : Indexed dims profile) (player strategy d : Nat)
    (known : dims[player]? = some d) (below : strategy < d) :
    ∃ moved, profile.move dims player strategy = .ok moved ∧
      moved.strategies = profile.strategies.set player strategy ∧ Indexed dims moved := by
  obtain ⟨inside, same⟩ := List.getElem?_eq_some_iff.mp known
  have listed : player < profile.strategies.length := (dims.in_range_length _ indexed.range).symm ▸ inside
  have current := indexed.range.get listed inside
  rw [List.get_eq_getElem, List.get_eq_getElem, same] at current
  have moved := move_succeeds dims profile.strategies player strategy _ d known below
    (List.getElem?_eq_getElem listed) current
  have whole : profile = ofVector dims profile.strategies := congrArg (mk profile.strategies) indexed.index
  rw [← whole] at moved
  exact ⟨_, moved, rfl, forall₂_set _ dims indexed.range player strategy d known below, rfl⟩

theorem moves_indexed (dims : Dimensions) (profile : Profile) (indexed : Indexed dims profile) (moves : List (Nat × Nat))
    (known : ∀ move ∈ moves, ∃ d, dims[move.1]? = some d ∧ move.2 < d) :
    ∃ moved, profile.moveAll dims moves = .ok moved ∧ moved.strategies = assignAll profile.strategies moves ∧
      Indexed dims moved := by
  induction moves generalizing profile with
  | nil => exact ⟨profile, rfl, rfl, indexed⟩
  | cons move rest ih =>
      obtain ⟨⟨d, listed, below⟩, others⟩ := List.forall_mem_cons.mp known
      obtain ⟨next, here, changed, nextIndexed⟩ := move_indexed dims profile indexed move.1 move.2 d listed below
      obtain ⟨moved, later, names, movedIndexed⟩ := ih next nextIndexed others
      refine ⟨moved, ?_, ?_, movedIndexed⟩
      · rw [moveAll, List.foldlM_cons, here, ok_bind]
        exact later
      · rw [names, changed]
        rfl

end Profile

namespace Game

-- A vector and a profile that carries its index write and read one cell.
theorem indexed_profile_cell (game : Game) (valid : game.WellFormed) (profile : Profile)
    (indexed : Profile.Indexed game.dimensions profile) :
    game.flatIndex profile.strategies = .ok profile.index ∧ profile.index < game.cells.size ∧
      (∀ outcome, game.setProfileOutcome profile outcome = game.setOutcome profile.strategies outcome) ∧
      game.profileOutcome profile = game.getOutcome profile.strategies := by
  have located : game.flatIndex profile.strategies = .ok profile.index := by
    rw [flatIndex, game.dimensions.locate_in_range _ indexed.range, ← indexed.index]
  have inside : profile.index < game.cells.size := by
    rw [valid.cells, indexed.index]
    exact game.dimensions.index_lt_count _ indexed.range
  refine ⟨located, inside, fun outcome => ?_, ?_⟩
  · rw [setProfileOutcome, setOutcome, located, ok_bind]
  · rw [profileOutcome, getOutcome, located, ok_bind]

-- The game may change on the way: its dimensions stay, and with them the index of every vector.
theorem moved_profile_keeps_its_index (game : Game) (reachable : game.Reachable) (peopled : ∀ d ∈ game.dimensions, 0 < d)
    (start : Profile)
    (made : start = .first game.dimensions ∨ ∃ strategies, Profile.ofStrategies game.dimensions strategies = .ok start)
    (moves : List (Nat × Nat)) (known : ∀ move ∈ moves, move.2 < game.strategyCount move.1) :
    ∃ profile, start.moveAll game.dimensions moves = .ok profile ∧
      profile.strategies = Profile.assignAll start.strategies moves ∧
      Profile.ofStrategies game.dimensions profile.strategies = .ok profile ∧
      ∀ history later, game.performAll history = .ok later → later.dimensions = game.dimensions ∧
        later.flatIndex profile.strategies = .ok profile.index ∧ profile.index < later.cells.size ∧
        (∀ outcome, later.setProfileOutcome profile outcome = later.setOutcome profile.strategies outcome) ∧
        later.profileOutcome profile = later.getOutcome profile.strategies := by
  have valid := reachable_well_formed game reachable
  have begun : Profile.Indexed game.dimensions start := by
    rcases made with rfl | ⟨strategies, listed⟩
    · exact Profile.first_indexed game.dimensions peopled
    · exact Profile.of_strategies_indexed game.dimensions strategies start listed
  obtain ⟨profile, moved, names, indexed⟩ := Profile.moves_indexed game.dimensions start begun moves fun move listed =>
    game.dimensions.player_of_strategy _ _ (known move listed)
  refine ⟨profile, moved, names, Profile.indexed_made _ profile indexed, fun history later run => ?_⟩
  obtain ⟨laterValid, same⟩ := perform_all_well_formed game later valid history run
  exact ⟨same, indexed_profile_cell later laterValid profile (same ▸ indexed)⟩

-- The second player moves twice, and the first one between.
theorem moved_profile_keeps_its_index_twice :
    ∃ game, ofDimensions [3, 4] = .ok game ∧ (∀ d ∈ game.dimensions, 0 < d) ∧
      (∀ move ∈ [(1, 3), (0, 2), (1, 1)], move.2 < game.strategyCount move.1) ∧
      ∃ profile, (Profile.first [3, 4]).moveAll [3, 4] [(1, 3), (0, 2), (1, 1)] = .ok profile ∧
        profile.strategies = [2, 1] ∧ profile.index = 5 ∧ Profile.ofStrategies [3, 4] [2, 1] = .ok profile ∧
        ∀ outcome, game.setProfileOutcome profile outcome = game.setOutcome [2, 1] outcome := by
  have peopled : ∀ d ∈ (blank [3, 4]).dimensions, 0 < d := by decide
  have known : ∀ move ∈ [(1, 3), (0, 2), (1, 1)], move.2 < (blank [3, 4]).strategyCount move.1 := by decide
  obtain ⟨profile, moved, names, made, cells⟩ := moved_profile_keeps_its_index (blank [3, 4])
    ⟨[3, 4], _, [], rfl, rfl⟩ peopled (.first [3, 4]) (.inl rfl) [(1, 3), (0, 2), (1, 1)] known
  obtain ⟨-, -, -, writes, -⟩ := cells [] _ rfl
  cases moved
  exact ⟨_, rfl, peopled, known, _, rfl, rfl, rfl, made, writes⟩

end Game

end NormalForm
