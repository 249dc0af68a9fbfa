import NormalForm.Proofs.File.Loading
import NormalForm.Proofs.File.Sentences

/-!
A written game reads back. Its text is read as a saved game with the same title, comment, players,
outcomes and cells, for any number of decimal places.
-/

set_option autoImplicit false

namespace NormalForm

open File

-- What callers see of an outcome beside its handle, which is new in every game that is read.
def Outcome.described (outcome : Outcome) : Nat × String × List Rat := (outcome.id, listing outcome)

namespace Game

structure Restores (back game : Game) : Prop where
  saved : back.unsaved = false
  title : back.title = game.title
  comment : back.comment = game.comment
  players : back.players = game.players
  dimensions : back.dimensions = game.dimensions
  outcomes : back.outcomes.toList.map Outcome.described = game.outcomes.toList.map Outcome.described
  ids : ∀ index, back.outcomeIdAt index = game.outcomeIdAt index

/-! Outcomes of a description. -/

theorem listed_outcomes_described (game : Game) (none : game.outcomes = #[]) (first : Nat)
    (listed : List (String × List Rat)) :
    (Description.addListed game first listed).outcomes.toList.map Outcome.described =
      (listed.zipIdx 1).map Prod.swap := by
  rw [Description.add_listed_placed game none, List.map_map, List.zipIdx_succ, List.map_map]
  exact List.map_congr_left fun entry _ => rfl

theorem outcomes_numbered (game : Game) (valid : game.WellFormed) :
    game.outcomes.toList.map Outcome.described =
      ((game.outcomes.toList.map listing).zipIdx 1).map Prod.swap := by
  apply List.ext_getElem?
  intro place
  rw [List.getElem?_map, List.getElem?_map, List.getElem?_zipIdx, List.getElem?_map, Array.getElem?_toList]
  cases found : game.outcomes[place]? with
  | none => rfl
  | some outcome =>
      have id := (valid.outcomes place outcome found).id
      simp [Outcome.described, id, Nat.add_comm]

-- The numbers in a file name the places that they were made from.
theorem cells_of_ids (game : Game) : (game.cellIds.map Description.placeOfId).toArray = game.cells := by
  have back : game.cellIds.map Description.placeOfId = game.cells.toList := by
    rw [cellIds, List.map_map]
    refine (List.map_congr_left fun cell _ => ?_).trans (List.map_id _)
    cases cell with
    | none => rfl
    | some place => rfl
  rw [back, Array.toArray_toList]

theorem describe_restores (game : Game) (valid : game.WellFormed) (first : Nat) :
    ((describe game).toGame first).Restores game := by
  have frame := Description.add_listed_frame (game.outcomes.toList.map listing) (describe game).frame first
  obtain ⟨title, comment, players, -⟩ := frame
  refine ⟨rfl, title, comment, players, ?_, ?_, ?_⟩
  · exact congrArg (List.map fun player : Player => player.strategies.length) players
  · have listed := listed_outcomes_described (describe game).frame rfl first (game.outcomes.toList.map listing)
    exact listed.trans (outcomes_numbered game valid).symm
  · intro index
    have cells : ((describe game).toGame first).cells = game.cells := cells_of_ids game
    rw [outcomeIdAt, Game.cell, cells]
    rfl

-- The number of outcomes is that of a table, which is a machine word.
theorem written_game_reads_back (game : Game) (reached : game.Reachable) (small : game.cells.size ≤ 2 ^ 20)
    (fits : Word.fits game.outcomes.size) (places : Nat) (within : places < 65536) (first : Nat) :
    ∃ text back, game.toText places = .ok text ∧ Game.parse first text = .ok back ∧ back.Restores game := by
  have valid := reachable_well_formed game reached
  obtain ⟨text, written, yields⟩ := to_text_yields places (Nat.le_of_lt_succ within) game
  obtain ⟨located, tokens, same⟩ := tokenize_yields text (fileTokens game) yields
  have described := read_description_reads game valid small fits located same
  refine ⟨text, (describe game).toGame first, written, ?_, describe_restores game valid first⟩
  rw [Game.parse, tokens, ok_bind, described]
  rfl

theorem written_game_reads_back_quoted :
    ∃ game, (blank [2, 1]).performAll
        [.setTitle "a \"b\" \\ \x7b, \x7d\n", .newOutcome ⟨1⟩, .setPayoff ⟨1⟩ 0 (-1 / 3), .newOutcome ⟨2⟩,
          .setOutcome [1, 0] (some ⟨2⟩)] = .ok game ∧
      ∃ text back, game.toText 2 = .ok text ∧ Game.parse 3 text = .ok back ∧ back.Restores game := by
  obtain ⟨game, run, small, fits⟩ : ∃ game, (blank [2, 1]).performAll
        [.setTitle "a \"b\" \\ \x7b, \x7d\n", .newOutcome ⟨1⟩, .setPayoff ⟨1⟩ 0 (-1 / 3), .newOutcome ⟨2⟩,
          .setOutcome [1, 0] (some ⟨2⟩)] = .ok game ∧
      game.cells.size ≤ 2 ^ 20 ∧ Word.fits game.outcomes.size := ⟨_, rfl, by decide, by decide⟩
  exact ⟨game, run, written_game_reads_back game ⟨[2, 1], _, _, rfl, run⟩ small fits 2 (by decide) 3⟩

end Game

end NormalForm
