import NormalForm.Game.Cells
import NormalForm.Proofs.Dimensions.Numbering

/-!
Histories of a game: the operations that callers can ask for, run one after another, and the shape
that every game has after any of them. Cells point at outcomes that exist, every outcome has a payoff
of every player, and ids count the outcomes from one.
-/

set_option autoImplicit false

namespace NormalForm

-- An outcome with this id and a payoff of each of so many players, exact and rounded.
structure Outcome.Fits (outcome : Outcome) (id players : Nat) : Prop where
  id : outcome.id = id
  payoffs : outcome.payoffs.length = players
  floats : outcome.floats.length = players

namespace Game

inductive Operation where
  | setTitle (title : String)
  | setComment (comment : String)
  | setPlayerName (player : Nat) (name : String)
  | setStrategyName (player strategy : Nat) (name : String)
  | newOutcome (handle : Handle)
  | deleteOutcome (handle : Handle)
  | setLabel (handle : Handle) (label : String)
  | setPayoff (handle : Handle) (player : Nat) (value : Rat)
  | setOutcome (strategies : List Nat) (outcome : Option Handle)
  | setProfileOutcome (profile : Profile) (outcome : Option Handle)
  | setOutcomeAt (index : Nat) (outcome : Option Handle)
  | refresh
  | markSaved
  | copy
deriving DecidableEq

def perform (game : Game) : Operation → Except Fault Game
  | .setTitle title => .ok (game.setTitle title)
  | .setComment comment => .ok (game.setComment comment)
  | .setPlayerName player name => game.setPlayerName player name
  | .setStrategyName player strategy name => game.setStrategyName player strategy name
  | .newOutcome handle => .ok (game.newOutcome handle)
  | .deleteOutcome handle => .ok (game.deleteOutcome handle).2
  | .setLabel handle label => .ok (game.setLabel handle label)
  | .setPayoff handle player value => game.setPayoff handle player value
  | .setOutcome strategies outcome => game.setOutcome strategies outcome
  | .setProfileOutcome profile outcome => game.setProfileOutcome profile outcome
  | .setOutcomeAt index outcome => game.setOutcomeAt index outcome
  | .refresh => .ok game.refresh.2
  | .markSaved => .ok game.markSaved
  | .copy => .ok game.copy

def performAll (game : Game) (history : List Operation) : Except Fault Game := history.foldlM perform game

-- Made from dimensions and changed by operations alone, none of which broke its contract.
def Reachable (game : Game) : Prop :=
  ∃ dims start history, ofDimensions dims = .ok start ∧ start.performAll history = .ok game

structure WellFormed (game : Game) : Prop where
  addressable : game.dimensions.count?.isSome
  cells : game.cells.size = game.dimensions.count
  places : ∀ index place : Nat, game.cells[index]? = some (some place) → place < game.outcomes.size
  outcomes : ∀ (place : Nat) outcome, game.outcomes[place]? = some outcome →
    outcome.Fits (place + 1) game.dimensions.length

/-! What the operations do to the parts of a game. -/

theorem blank_dimensions (dims : Dimensions) : (blank dims).dimensions = dims := by
  have same : ∀ pair ∈ dims.zipIdx, (Player.numbered (pair.2 + 1) pair.1).strategies.length = pair.1 := by
    intro pair _
    rw [Player.numbered, numberNames, List.length_map, List.length_range]
  rw [dimensions, blank, List.map_map]
  exact (List.map_congr_left same).trans (List.zipIdx_map_fst 0 dims)

theorem of_dimensions_ok (dims : Dimensions) (game : Game) (made : ofDimensions dims = .ok game) :
    dims.count?.isSome ∧ game = blank dims := by
  rw [ofDimensions] at made
  cases counted : dims.allotted with
  | error fault =>
      rw [counted] at made
      cases made
  | ok cells =>
      rw [counted] at made
      cases made
      exact ⟨dims.count_is_some_iff.mpr ⟨cells, counted⟩, rfl⟩

theorem of_dimensions_counted (dims : Dimensions) (counted : dims.count?.isSome) : ofDimensions dims = .ok (blank dims) := by
  obtain ⟨cells, made⟩ := dims.count_is_some_iff.mp counted
  rw [ofDimensions, made]
  rfl

theorem dimensions_set_player (game : Game) (player : Nat) (old new : Player)
    (known : game.players[player]? = some old) (same : new.strategies.length = old.strategies.length) :
    { game with players := game.players.set player new }.dimensions = game.dimensions := by
  apply List.ext_getElem?
  intro other
  simp only [dimensions, List.getElem?_map, List.getElem?_set]
  by_cases here : player = other
  · obtain ⟨inside, -⟩ := List.getElem?_eq_some_iff.mp known
    rw [if_pos here, if_pos inside, ← here, known, Option.map_some, Option.map_some, same]
  · rw [if_neg here]

theorem set_player_name_dimensions (game next : Game) (player : Nat) (name : String)
    (run : game.setPlayerName player name = .ok next) :
    next.dimensions = game.dimensions ∧ next.outcomes = game.outcomes ∧ next.cells = game.cells := by
  obtain ⟨owner, found, result⟩ := bind_eq_ok.mp run
  cases result
  exact ⟨dimensions_set_player game player owner _ ((entry_eq_ok _ _ _).mp found) rfl, rfl, rfl⟩

theorem set_strategy_name_dimensions (game next : Game) (player strategy : Nat) (name : String)
    (run : game.setStrategyName player strategy name = .ok next) :
    next.dimensions = game.dimensions ∧ next.outcomes = game.outcomes ∧ next.cells = game.cells := by
  obtain ⟨owner, found, rest⟩ := bind_eq_ok.mp run
  obtain ⟨_, -, result⟩ := bind_eq_ok.mp rest
  cases result
  exact ⟨dimensions_set_player game player owner _ ((entry_eq_ok _ _ _).mp found) List.length_set, rfl, rfl⟩

theorem place_known (game : Game) (handle : Handle) (place : Nat) (found : game.place? handle = some place) :
    ∃ outcome, game.outcomes[place]? = some outcome ∧ outcome.handle = handle := by
  obtain ⟨inside, named, -⟩ := List.findIdx?_eq_some_iff_getElem.mp found
  exact ⟨game.outcomes[place], Array.getElem?_eq_getElem inside, eq_of_beq named⟩

theorem live_place_eq_ok (game : Game) (handle : Handle) (place : Nat) :
    game.livePlace handle = .ok place ↔ game.place? handle = some place := by
  rw [livePlace]
  cases game.place? handle with
  | none => simp
  | some other => simp

theorem deleted_outcomes (outcomes : Array Outcome) (place : Nat) (inside : place < outcomes.size)
    (other : Nat) :
    (renumber (outcomes.eraseIdxIfInBounds place))[other]? =
      (if other < place then outcomes[other]? else outcomes[other + 1]?).map fun outcome =>
        { outcome with id := other + 1 } := by
  rw [renumber, Array.getElem?_mapIdx, Array.eraseIdxIfInBounds_eq, dif_pos inside, Array.getElem?_eraseIdx]

theorem deleted_size (outcomes : Array Outcome) (place : Nat) (inside : place < outcomes.size) :
    (renumber (outcomes.eraseIdxIfInBounds place)).size = outcomes.size - 1 := by
  rw [renumber, Array.size_mapIdx, Array.eraseIdxIfInBounds_eq, dif_pos inside, Array.size_eraseIdx]

/-! Every operation keeps the shape, and the dimensions. -/

theorem blank_well_formed (dims : Dimensions) (counted : dims.count?.isSome) : (blank dims).WellFormed := by
  have same := blank_dimensions dims
  refine ⟨same.symm ▸ counted, by rw [same]; exact Array.size_replicate, ?_, ?_⟩
  · intro index place cell
    simp [blank, Array.getElem?_replicate] at cell
  · intro place outcome found
    simp [blank] at found

-- Outcomes may change where they keep their ids and the numbers of their payoffs.
theorem updated_well_formed (game after : Game) (valid : game.WellFormed)
    (dims : after.dimensions = game.dimensions) (cells : after.cells = game.cells)
    (size : after.outcomes.size = game.outcomes.size)
    (each : ∀ (place : Nat) outcome, after.outcomes[place]? = some outcome →
      ∃ old, game.outcomes[place]? = some old ∧ ∀ id players, old.Fits id players → outcome.Fits id players) :
    after.WellFormed := by
  refine ⟨dims ▸ valid.addressable, by rw [cells, dims, valid.cells], ?_, ?_⟩
  · intro index place cell
    rw [size]
    exact valid.places index place (cells ▸ cell)
  · intro place outcome found
    obtain ⟨old, known, keeps⟩ := each place outcome found
    exact dims ▸ keeps _ _ (valid.outcomes place old known)

theorem same_shape_well_formed (game after : Game) (valid : game.WellFormed)
    (dims : after.dimensions = game.dimensions) (outcomes : after.outcomes = game.outcomes)
    (cells : after.cells = game.cells) : after.WellFormed :=
  updated_well_formed game after valid dims cells (congrArg Array.size outcomes) fun _ outcome found =>
    ⟨outcome, outcomes ▸ found, fun _ _ fits => fits⟩

theorem new_outcome_well_formed (game : Game) (valid : game.WellFormed) (handle : Handle) :
    (game.newOutcome handle).WellFormed := by
  refine ⟨valid.addressable, valid.cells, ?_, ?_⟩
  · intro index place cell
    have inside := valid.places index place cell
    simp only [newOutcome, touch, Array.size_push]
    omega
  · intro place outcome found
    simp only [newOutcome, touch, Array.getElem?_push] at found
    by_cases last : place = game.outcomes.size
    · rw [if_pos last, Option.some.injEq] at found
      subst found last
      exact ⟨rfl, by simp [Outcome.blank, newOutcome, touch, dimensions],
        by simp [Outcome.blank, newOutcome, touch, dimensions]⟩
    · rw [if_neg last] at found
      exact valid.outcomes place outcome found

theorem delete_outcome_well_formed (game : Game) (valid : game.WellFormed) (handle : Handle) :
    (game.deleteOutcome handle).2.WellFormed := by
  rw [deleteOutcome]
  cases found : game.place? handle with
  | none => exact valid
  | some place =>
      obtain ⟨doomed, known, -⟩ := place_known game handle place found
      obtain ⟨inside, -⟩ := Array.getElem?_eq_some_iff.mp known
      refine ⟨valid.addressable, ?_, ?_, ?_⟩
      · exact Array.size_map.trans valid.cells
      · intro index other cell
        simp only [touch, Array.getElem?_map, Option.map_eq_some_iff] at cell
        obtain ⟨before, held, moved⟩ := cell
        simp only [touch, deleted_size _ _ inside]
        cases before with
        | none => cases moved
        | some old =>
            have oldInside := valid.places index old held
            simp only [cellWithout] at moved
            split at moved
            · cases moved
            · split at moved
              · cases moved
                omega
              · cases moved
                omega
      · intro other outcome renumbered
        simp only [touch, deleted_outcomes _ _ inside, Option.map_eq_some_iff] at renumbered
        obtain ⟨old, moved, same⟩ := renumbered
        subst same
        by_cases before : other < place
        · rw [if_pos before] at moved
          have fits := valid.outcomes other old moved
          exact ⟨rfl, fits.payoffs, fits.floats⟩
        · rw [if_neg before] at moved
          have fits := valid.outcomes (other + 1) old moved
          exact ⟨rfl, fits.payoffs, fits.floats⟩

theorem modified_well_formed (game after : Game) (valid : game.WellFormed) (place : Nat)
    (change : Outcome → Outcome)
    (keeps : ∀ outcome id players, outcome.Fits id players → (change outcome).Fits id players)
    (dims : after.dimensions = game.dimensions) (cells : after.cells = game.cells)
    (outcomes : after.outcomes = game.outcomes.modify place change) : after.WellFormed := by
  refine updated_well_formed game after valid dims cells (by rw [outcomes, Array.size_modify]) ?_
  intro other outcome found
  rw [outcomes, Array.getElem?_modify] at found
  by_cases here : place = other
  · rw [if_pos here, Option.map_eq_some_iff] at found
    obtain ⟨old, known, changed⟩ := found
    exact ⟨old, known, changed ▸ keeps old⟩
  · rw [if_neg here] at found
    exact ⟨outcome, found, fun _ _ fits => fits⟩

theorem set_label_well_formed (game : Game) (valid : game.WellFormed) (handle : Handle) (label : String) :
    (game.setLabel handle label).WellFormed := by
  rw [setLabel]
  cases game.place? handle with
  | none => exact valid
  | some place =>
      exact modified_well_formed game _ valid place (fun outcome => { outcome with label })
        (fun _ _ _ fits => ⟨fits.id, fits.payoffs, fits.floats⟩) rfl rfl rfl

theorem set_payoff_ok (game next : Game) (handle : Handle) (player : Nat) (value : Rat)
    (run : game.setPayoff handle player value = .ok next) :
    player < game.players.length ∧ ∃ place, game.place? handle = some place ∧
      next = { game with
        outcomes := game.outcomes.modify place fun outcome => outcome.setPayoff player value }.touch := by
  rw [setPayoff] at run
  split at run
  · rename_i inside
    obtain ⟨place, live, result⟩ := bind_eq_ok.mp run
    cases result
    exact ⟨inside, place, (live_place_eq_ok game handle place).mp live, rfl⟩
  · cases run

theorem set_payoff_well_formed (game next : Game) (valid : game.WellFormed) (handle : Handle)
    (player : Nat) (value : Rat) (run : game.setPayoff handle player value = .ok next) :
    next.WellFormed := by
  obtain ⟨-, place, -, rfl⟩ := set_payoff_ok game next handle player value run
  exact modified_well_formed game _ valid place (fun outcome => outcome.setPayoff player value)
    (fun _ _ _ fits => ⟨fits.id, List.length_set.trans fits.payoffs, List.length_set.trans fits.floats⟩)
    rfl rfl rfl

theorem refresh_well_formed (game : Game) (valid : game.WellFormed) : game.refresh.2.WellFormed := by
  rw [refresh]
  split
  · exact valid
  · refine updated_well_formed game _ valid rfl rfl Array.size_map ?_
    intro place outcome found
    simp only [Array.getElem?_map, Option.map_eq_some_iff] at found
    obtain ⟨old, known, rfl⟩ := found
    exact ⟨old, known, fun _ _ fits => ⟨fits.id, fits.payoffs, List.length_map _ |>.trans fits.payoffs⟩⟩

theorem target_inside (game : Game) (outcome : Option Handle) (target : Option Nat)
    (run : game.target outcome = .ok target) : ∀ place ∈ target, place < game.outcomes.size := by
  intro place member
  cases outcome with
  | none =>
      cases run
      cases member
  | some handle =>
      cases live : game.livePlace handle with
      | error fault => simp [Game.target, live, Except.map] at run
      | ok found =>
          obtain ⟨named, known, -⟩ := place_known game handle found ((live_place_eq_ok _ _ _).mp live)
          simp only [Game.target, live, Except.map, Except.ok.injEq] at run
          cases run
          cases member
          exact (Array.getElem?_eq_some_iff.mp known).1

theorem set_outcome_at_ok (game next : Game) (index : Nat) (outcome : Option Handle)
    (run : game.setOutcomeAt index outcome = .ok next) :
    index < game.cells.size ∧ ∃ target, game.target outcome = .ok target ∧
      next = { game with cells := game.cells.setIfInBounds index target } := by
  rw [setOutcomeAt] at run
  split at run
  · rename_i inside
    obtain ⟨target, chosen, result⟩ := bind_eq_ok.mp run
    cases result
    exact ⟨inside, target, chosen, rfl⟩
  · cases run

theorem set_outcome_at_well_formed (game next : Game) (valid : game.WellFormed) (index : Nat)
    (outcome : Option Handle) (run : game.setOutcomeAt index outcome = .ok next) :
    next.WellFormed ∧ next.dimensions = game.dimensions := by
  obtain ⟨inside, target, chosen, rfl⟩ := set_outcome_at_ok game next index outcome run
  refine ⟨⟨valid.addressable, Array.size_setIfInBounds.trans valid.cells, ?_, valid.outcomes⟩, rfl⟩
  intro other place cell
  simp only [Array.getElem?_setIfInBounds] at cell
  by_cases here : index = other
  · rw [if_pos here, if_pos inside, Option.some.injEq] at cell
    exact target_inside game outcome target chosen place cell
  · rw [if_neg here] at cell
    exact valid.places other place cell

theorem map_touch_ok (run : Except Fault Game) (next : Game) (touched : run.map touch = .ok next) :
    ∃ written, run = .ok written ∧ next = written.touch := by
  cases run with
  | error fault => cases touched
  | ok written => exact ⟨written, rfl, (Except.ok.inj touched).symm⟩

theorem perform_well_formed (game next : Game) (valid : game.WellFormed) (operation : Operation)
    (run : game.perform operation = .ok next) :
    next.WellFormed ∧ next.dimensions = game.dimensions := by
  have touched (written : Game) (kept : written.WellFormed ∧ written.dimensions = game.dimensions) :
      written.touch.WellFormed ∧ written.touch.dimensions = game.dimensions :=
    ⟨same_shape_well_formed written _ kept.1 rfl rfl rfl, kept.2⟩
  cases operation with
  | setTitle title =>
      cases run
      exact ⟨same_shape_well_formed game _ valid rfl rfl rfl, rfl⟩
  | setComment comment =>
      cases run
      exact ⟨same_shape_well_formed game _ valid rfl rfl rfl, rfl⟩
  | setPlayerName player name =>
      obtain ⟨dims, outcomes, cells⟩ := set_player_name_dimensions game next player name run
      exact ⟨same_shape_well_formed game next valid dims outcomes cells, dims⟩
  | setStrategyName player strategy name =>
      obtain ⟨dims, outcomes, cells⟩ := set_strategy_name_dimensions game next player strategy name run
      exact ⟨same_shape_well_formed game next valid dims outcomes cells, dims⟩
  | newOutcome handle =>
      cases run
      exact ⟨new_outcome_well_formed game valid handle, rfl⟩
  | deleteOutcome handle =>
      cases run
      refine ⟨delete_outcome_well_formed game valid handle, ?_⟩
      rw [deleteOutcome]
      split <;> rfl
  | setLabel handle label =>
      cases run
      refine ⟨set_label_well_formed game valid handle label, ?_⟩
      rw [setLabel]
      split <;> rfl
  | setPayoff handle player value =>
      obtain ⟨-, place, -, rfl⟩ := set_payoff_ok game next handle player value run
      exact ⟨set_payoff_well_formed game _ valid handle player value run, rfl⟩
  | setOutcome strategies outcome =>
      obtain ⟨index, -, rest⟩ := bind_eq_ok.mp run
      obtain ⟨written, stored, rfl⟩ := map_touch_ok _ next rest
      exact touched written (set_outcome_at_well_formed game written valid index outcome stored)
  | setProfileOutcome profile outcome =>
      obtain ⟨written, stored, rfl⟩ := map_touch_ok _ next run
      exact touched written (set_outcome_at_well_formed game written valid _ outcome stored)
  | setOutcomeAt index outcome => exact set_outcome_at_well_formed game next valid index outcome run
  | refresh =>
      cases run
      refine ⟨refresh_well_formed game valid, ?_⟩
      rw [refresh]
      split <;> rfl
  | markSaved =>
      cases run
      exact ⟨same_shape_well_formed game _ valid rfl rfl rfl, rfl⟩
  | copy =>
      cases run
      exact ⟨same_shape_well_formed game _ valid rfl rfl rfl, rfl⟩

theorem perform_all_well_formed (game next : Game) (valid : game.WellFormed) (history : List Operation)
    (run : game.performAll history = .ok next) :
    next.WellFormed ∧ next.dimensions = game.dimensions := by
  induction history generalizing game with
  | nil =>
      cases run
      exact ⟨valid, rfl⟩
  | cons operation rest ih =>
      obtain ⟨between, here, later⟩ := bind_eq_ok.mp run
      obtain ⟨betweenValid, same⟩ := perform_well_formed game between valid operation here
      obtain ⟨nextValid, dims⟩ := ih between betweenValid later
      exact ⟨nextValid, dims.trans same⟩

theorem reachable_well_formed (game : Game) (reached : game.Reachable) : game.WellFormed := by
  obtain ⟨dims, start, history, made, run⟩ := reached
  obtain ⟨counted, rfl⟩ := of_dimensions_ok dims start made
  exact (perform_all_well_formed _ game (blank_well_formed dims counted) history run).1

end Game

end NormalForm
