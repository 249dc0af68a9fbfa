import NormalForm.Proofs.File.Acceptance
import NormalForm.Proofs.File.Written
import NormalForm.Proofs.Game.Operations

/-!
The tokens of a written game form a sentence that describes the game, so that reading gives back the
description.
-/

set_option autoImplicit false

namespace NormalForm.File

theorem series_flat_map {α β : Type} (Item : List Token → β → Prop) (items : List α) (tokens : α → List Token)
    (value : α → β) (each : ∀ one ∈ items, Item (tokens one) (value one)) :
    Series Item (items.flatMap tokens) (items.map value) := by
  refine ⟨items.map tokens, List.flatMap_def, ?_⟩
  exact List.forall₂_map_left_iff.mpr (List.forall₂_map_right_iff.mpr (List.forall₂_same.mpr each))

theorem series_alone {β : Type} (Item : List Token → β → Prop) (token : β → Token) (values : List β)
    (each : ∀ value ∈ values, Item [token value] value) : Series Item (values.map token) values := by
  have series := series_flat_map Item values (fun value => [token value]) id each
  rw [List.map_id, ← List.map_eq_flatMap] at series
  exact series

theorem amount_alone (value : Rat) : Amount [.number value] value := ⟨0, rfl⟩

theorem payoff_series (payoffs : List Rat) : Series Amount (payoffTokens payoffs) payoffs := by
  cases payoffs with
  | nil => exact series_nil Amount
  | cons first rest =>
      have others := series_flat_map Amount rest (fun value => [.comma, .number value]) id fun value _ => ⟨1, rfl⟩
      rw [List.map_id] at others
      exact series_cons Amount [.number first] _ first rest (amount_alone first) others

-- What a file says of an outcome; its id is its place in the file.
def listing (outcome : Outcome) : String × List Rat := (outcome.label, outcome.payoffs)

theorem listing_of_outcome (outcome : Outcome) :
    Listing outcome.payoffs.length (outcomeTokens outcome) (listing outcome) :=
  ⟨payoffTokens outcome.payoffs, rfl, payoff_series outcome.payoffs, rfl⟩

theorem block_of_players (players : List Player) :
    StrategyBlock players.length (strategyTokens players) (players.map Player.strategies) :=
  .named _ _ (series_flat_map Names players _ _ fun _ _ => rfl) (List.length_map _)

theorem zip_players (players : List Player) :
    List.zipWith Player.mk (players.map Player.name) (players.map Player.strategies) = players := by
  rw [List.zipWith_map, List.zipWith_self]
  exact List.map_id players

-- A file with a count for each player, without a comment, and with payoffs cell by cell.
def countedTokens (title : String) (names : List String) (counts : List Nat) (values : List Rat) : List Token :=
  headerTokens ++ .text title :: (listTokens names ++
    .opening :: (idTokens counts ++ .closing :: values.map Token.number))

def counted (title : String) (names : List String) (counts : List Nat) (values : List Rat) : Description :=
  { title
    comment := ""
    players := List.zipWith Player.mk names (counts.map numberNames)
    content := .payoffs values }

theorem count_series (counts : List Nat) (words : ∀ n ∈ counts, n < 2 ^ 64) : Series Count (idTokens counts) counts :=
  series_alone Count (fun n => .number (n : Rat)) counts fun n member => ⟨amount_alone n, words n member⟩

theorem number_names_lengths (counts : List Nat) : (counts.map numberNames).map List.length = counts :=
  (names_of_dimensions (.counted counts)).symm

theorem counted_dimensions (title : String) (names : List String) (counts : List Nat) (values : List Rat)
    (size : counts.length = names.length) : (counted title names counts values).dimensions = counts :=
  (zip_dimensions names (counts.map numberNames) ((List.length_map _).trans size)).trans (number_names_lengths counts)

-- A count for each player, and payoffs cell by cell.
theorem listed_sentence (field title comment : String) (names : List String) (dims : Dimensions) (values : List Rat)
    (list counts note payoffs : List Token) (kind : field = "R" ∨ field = "D") (players : Names list names)
    (size : names.length = dims.length) (plays : Series Count counts dims) (remark : Comment note comment)
    (pays : Series Amount payoffs values) (admitted : Admitted dims)
    (paid : values.length = Dimensions.count dims * dims.length) :
    Sentence ([.word "NFG", .number 1, .word field, .text title] ++ list ++ (.opening :: (counts ++ [.closing])) ++
        note ++ payoffs)
      { title, comment, players := List.zipWith Player.mk names (dims.map numberNames), content := .payoffs values } := by
  have lengths := number_names_lengths dims
  have states : Body names.length (Dimensions.count ((dims.map numberNames).map List.length)) payoffs
      (.payoffs values) := by
    rw [lengths, size]
    exact .payoffs values payoffs pays paid
  exact .file field title comment names _ _ list _ note payoffs kind players (.counted dims counts plays size.symm) remark
    (lengths.symm ▸ admitted) states

theorem counted_sentence (title : String) (names : List String) (counts : List Nat) (values : List Rat)
    (size : counts.length = names.length) (words : ∀ n ∈ counts, n < 2 ^ 64) (admitted : Admitted counts)
    (paid : values.length = Dimensions.count counts * names.length) :
    Sentence (countedTokens title names counts values) (counted title names counts values) := by
  have amounts : Series Amount (values.map Token.number) values :=
    series_alone Amount Token.number values fun value _ => amount_alone value
  have whole := listed_sentence "R" title "" names counts values _ (idTokens counts) [] (values.map Token.number) (.inl rfl)
    rfl size.symm (count_series counts words) .absent amounts admitted (size ▸ paid)
  simpa [countedTokens, counted, headerTokens, listTokens, textTokens] using whole

-- What a written file says of a game.
def describe (game : Game) : Description :=
  { title := game.title
    comment := game.comment
    players := game.players
    content := .outcomes (game.outcomes.toList.map listing) game.cellIds }

-- The same with other numbers in the cells.
def describeCells (game : Game) (ids : List Nat) : Description :=
  { describe game with content := .outcomes (game.outcomes.toList.map listing) ids }

theorem cell_ids_known (game : Game) (valid : game.WellFormed) : ∀ id ∈ game.cellIds, id ≤ game.outcomes.size := by
  intro id member
  obtain ⟨cell, stored, rfl⟩ := List.mem_map.mp member
  cases cell with
  | none => exact Nat.zero_le _
  | some place =>
      obtain ⟨index, inside, same⟩ := List.mem_iff_getElem.mp stored
      refine valid.places index place ?_
      rw [← Array.getElem?_toList, List.getElem?_eq_getElem inside, same]

theorem cell_ids_length (game : Game) (valid : game.WellFormed) : game.cellIds.length = game.dimensions.count := by
  rw [Game.cellIds, List.length_map, Array.length_toList, valid.cells]

theorem listings_of_game (game : Game) (valid : game.WellFormed) :
    Series (Listing game.players.length) (game.outcomes.toList.flatMap outcomeTokens)
      (game.outcomes.toList.map listing) := by
  refine series_flat_map _ _ _ _ fun outcome member => ?_
  obtain ⟨place, inside, known⟩ := List.mem_iff_getElem.mp member
  have paid : outcome.payoffs.length = game.dimensions.length := by
    refine (valid.outcomes place outcome ?_).payoffs
    rw [← Array.getElem?_toList, List.getElem?_eq_getElem inside, known]
  have players : game.dimensions.length = game.players.length := List.length_map _
  rw [← players, ← paid]
  exact listing_of_outcome outcome

theorem body_of_cells (game : Game) (valid : game.WellFormed) (ids : List Nat)
    (known : ∀ id ∈ ids, id ≤ game.outcomes.size) (size : ids.length = game.dimensions.count) :
    Body game.players.length game.dimensions.count (tableTokens game ++ idTokens ids)
      (describeCells game ids).content := by
  have numbers : Series Whole (idTokens ids) ids := series_alone Whole (fun id => .number (id : Rat)) ids fun id _ =>
    amount_alone id
  have count : (game.outcomes.toList.map listing).length = game.outcomes.size := by
    rw [List.length_map, Array.length_toList]
  have split : tableTokens game ++ idTokens ids =
      .opening :: (game.outcomes.toList.flatMap outcomeTokens ++ .closing :: idTokens ids) := by
    simp [tableTokens]
  rw [split]
  exact .outcomes _ ids _ _ (listings_of_game game valid) numbers (count ▸ known) size

-- The strategies are written by name, and there is always a comment.
theorem sentence_of_cells (game : Game) (valid : game.WellFormed) (small : game.cells.size ≤ maxCells) (ids : List Nat)
    (known : ∀ id ∈ ids, id ≤ game.outcomes.size) (size : ids.length = game.dimensions.count) :
    Sentence (preambleTokens game ++ (tableTokens game ++ idTokens ids)) (describeCells game ids) := by
  have lengths : (game.players.map Player.strategies).map List.length = game.dimensions := List.map_map
  have players : (game.players.map Player.name).length = game.players.length := List.length_map _
  have admitted : Admitted game.dimensions := by
    obtain ⟨-, product⟩ := Dimensions.count_addressable game.dimensions valid.addressable
    exact ⟨((product_iff game.dimensions _).mp product).1, valid.cells ▸ small⟩
  have whole := Sentence.file "R" game.title game.comment (game.players.map Player.name)
    (game.players.map Player.strategies) (describeCells game ids).content _ _ _ _ (.inl rfl) rfl
    (players.symm ▸ block_of_players game.players) (.present game.comment) (lengths.symm ▸ admitted)
    (lengths.symm ▸ players.symm ▸ body_of_cells game valid ids known size)
  rw [zip_players] at whole
  simpa [describeCells, describe, preambleTokens, headerTokens, listTokens, textTokens] using whole

theorem sentence_of_game (game : Game) (valid : game.WellFormed) (small : game.cells.size ≤ maxCells) :
    Sentence (fileTokens game) (describe game) := by
  rw [file_tokens_eq]
  exact sentence_of_cells game valid small game.cellIds (cell_ids_known game valid) (cell_ids_length game valid)

theorem describe_cells_held (game : Game) (valid : game.WellFormed) (fits : Word.fits game.outcomes.size)
    (ids : List Nat) (known : ∀ id ∈ ids, id ≤ game.outcomes.size) : (describeCells game ids).Held := by
  refine ⟨(Dimensions.count_addressable _ valid.addressable).1, ?_⟩
  intro listed others same id member
  cases same
  exact Nat.lt_of_le_of_lt (known id member) (of_decide_eq_true fits)

theorem describe_held (game : Game) (valid : game.WellFormed) (fits : Word.fits game.outcomes.size) :
    (describe game).Held :=
  describe_cells_held game valid fits game.cellIds (cell_ids_known game valid)

theorem read_description_reads (game : Game) (valid : game.WellFormed) (small : game.cells.size ≤ maxCells)
    (fits : Word.fits game.outcomes.size) (located : Tokens)
    (same : located.map Located.token = fileTokens game) : readDescription located = .ok (describe game) :=
  (read_description_iff located (describe game)).mpr
    ⟨same ▸ sentence_of_game game valid small, describe_held game valid fits⟩

end NormalForm.File
