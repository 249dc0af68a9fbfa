import NormalForm.Proofs.File.Truncation

/-!
Games made from rows of payoffs, and games read from a text that lists the payoffs cell by cell. Both get one
outcome for each cell, in the order of the cells, which pays what the row of the cell says.
-/

set_option autoImplicit false

namespace NormalForm

open File

-- An outcome as far as two games can have it in common.
def Outcome.unowned (outcome : Outcome) : Outcome := { outcome with handle := ⟨0⟩ }

namespace Game

-- One row for each cell, and in each row one entry for each player.
structure Shaped (dims : Dimensions) (rows : List (List Rat)) : Prop where
  cells : rows.length = dims.count
  players : ∀ row ∈ rows, row.length = dims.length

-- Each cell of the game has an outcome of its own, which pays what the row of the cell says.
structure Tabulates (game : Game) (first : Nat) (dims : Dimensions) (rows : List (List Rat)) : Prop where
  dimensions : game.dimensions = dims
  strategies : game.players.map Player.strategies = dims.map numberNames
  outcomes : ∀ place : Nat, game.outcomes[place]? =
    (rows[place]?).map (Outcome.ofPayoffs ⟨first + place⟩ (place + 1) "")
  cells : game.cells = ((List.range dims.count).map some).toArray
  ids : ∀ index < dims.count, game.outcomeIdAt index = .ok (index + 1)
  payoffs : ∀ strategies, dims.InRange strategies → ∀ player < dims.length, ∃ index value,
    game.flatIndex strategies = .ok index ∧ (rows[index]?).bind (·[player]?) = some value ∧
      game.payoffAt index player = .ok value
  saved : game.unsaved = false

structure SameTable (one other : Game) : Prop where
  dimensions : one.dimensions = other.dimensions
  strategies : one.players.map Player.strategies = other.players.map Player.strategies
  outcomes : one.outcomes.map Outcome.unowned = other.outcomes.map Outcome.unowned
  cells : one.cells = other.cells

theorem dimensions_of_strategies (players : List Player) (dims : Dimensions)
    (named : players.map Player.strategies = dims.map numberNames) :
    players.map (fun player => player.strategies.length) = dims := by
  rw [← number_names_lengths dims, ← named, List.map_map]
  rfl

theorem tabulates_same (one other : Game) (first second : Nat) (dims : Dimensions) (rows : List (List Rat))
    (left : one.Tabulates first dims rows) (right : other.Tabulates second dims rows) : one.SameTable other := by
  refine ⟨left.dimensions.trans right.dimensions.symm, left.strategies.trans right.strategies.symm, ?_,
    left.cells.trans right.cells.symm⟩
  apply Array.ext_getElem?
  intro place
  rw [Array.getElem?_map, Array.getElem?_map, left.outcomes, right.outcomes, Option.map_map, Option.map_map]
  rfl

/-! Rows loaded into the cells of a game without outcomes. -/

def tabled (frame : Game) (first : Nat) (rows : List (List Rat)) : Game :=
  { Description.addListed frame first (rows.map (Prod.mk "")) with
    cells := ((List.range rows.length).map some).toArray
    unsaved := false }

section Tabled

variable (frame : Game) (first : Nat) (rows : List (List Rat))

theorem tabled_players : (frame.tabled first rows).players = frame.players :=
  (Description.add_listed_frame (rows.map (Prod.mk "")) frame first).2.2.1

theorem tabled_outcome (none : frame.outcomes = #[]) (place : Nat) : (frame.tabled first rows).outcomes[place]? =
    (rows[place]?).map (Outcome.ofPayoffs ⟨first + place⟩ (place + 1) "") := by
  rw [tabled, Description.add_listed_placed frame none, List.getElem?_toArray, List.getElem?_map, List.getElem?_zipIdx,
    List.getElem?_map, Option.map_map, Option.map_map]
  simp [Function.comp_def, Description.placed]

theorem tabled_cell (index : Nat) (inside : index < rows.length) :
    (frame.tabled first rows).cell index = .ok (some index) := by
  have stored : (frame.tabled first rows).cells[index]? = some (some index) := by
    rw [tabled, List.getElem?_toArray, List.getElem?_map, List.getElem?_range inside]
    rfl
  rw [cell, stored]

theorem tabled_payoff (none : frame.outcomes = #[]) (index player : Nat) (inside : index < rows.length)
    (known : player < rows[index].length) :
    (frame.tabled first rows).payoffAt index player = .ok rows[index][player] := by
  have outcome := frame.tabled_outcome first rows none index
  rw [List.getElem?_eq_getElem inside, ← Array.getElem?_toList] at outcome
  rw [payoffAt, frame.tabled_cell first rows index inside, ok_bind]
  dsimp only
  rw [(entry_eq_ok _ _ _).mpr outcome, ok_bind]
  exact (entry_eq_ok _ _ _).mpr (List.getElem?_eq_getElem known)

theorem tabled_tabulates (dims : Dimensions) (none : frame.outcomes = #[])
    (named : frame.players.map Player.strategies = dims.map numberNames) (shaped : Shaped dims rows) :
    (frame.tabled first rows).Tabulates first dims rows := by
  have players := frame.tabled_players first rows
  have strategies : (frame.tabled first rows).players.map Player.strategies = dims.map numberNames := players ▸ named
  have dimensions : (frame.tabled first rows).dimensions = dims := dimensions_of_strategies _ dims strategies
  refine ⟨dimensions, strategies, frame.tabled_outcome first rows none, ?_, ?_, ?_, rfl⟩
  · exact congrArg (fun size => ((List.range size).map some).toArray) shaped.cells
  · intro index inside
    rw [outcomeIdAt, frame.tabled_cell first rows index (shaped.cells ▸ inside)]
    rfl
  · intro vector range player known
    have inside : dims.index vector < rows.length := shaped.cells ▸ dims.index_lt_count vector range
    have width : player < rows[dims.index vector].length := shaped.players _ (List.getElem_mem inside) ▸ known
    refine ⟨dims.index vector, rows[dims.index vector][player], ?_, ?_, ?_⟩
    · rw [flatIndex, dimensions, dims.locate_in_range vector range]
    · rw [List.getElem?_eq_getElem inside]
      exact List.getElem?_eq_getElem width
    · exact frame.tabled_payoff first rows none _ player inside width

end Tabled

/-! Rows given to a new game. -/

theorem blank_strategies (dims : Dimensions) : (blank dims).players.map Player.strategies = dims.map numberNames := by
  have numbered := congrArg (List.map numberNames) (List.zipIdx_map_fst 0 dims)
  rw [List.map_map] at numbered
  rw [blank, List.map_map]
  exact numbered

theorem of_rows_shaped (first : Nat) (dims : Dimensions) (rows : List (List Rat)) (counted : dims.count?.isSome)
    (shaped : Shaped dims rows) : ofRows first dims rows = .ok (.ok ((blank dims).tabled first rows)) := by
  have size : (blank dims).cells.size = rows.length := Array.size_replicate.trans shaped.cells.symm
  have even : rows.find? (fun row => row.length ≠ dims.length) = none := by
    simpa using shaped.players
  have loaded : (List.range rows.length).map (fun index => ("", rows.toArray.getD index [])) =
      rows.map (Prod.mk "") := by
    apply List.ext_getElem
    · simp
    · intro index inside _
      simp [Array.getD, by simpa using inside]
  rw [ofRows, of_dimensions_counted dims counted, ok_bind, if_neg (not_not.mpr size.symm), even]
  dsimp only
  rw [Description.fill_all _ rfl, size, loaded]
  rfl

theorem of_rows_misshaped (first : Nat) (dims : Dimensions) (rows : List (List Rat)) (counted : dims.count?.isSome)
    (misshaped : ¬ Shaped dims rows) :
    ∃ expected found, ofRows first dims rows = .ok (.error (.shape expected found)) := by
  rw [ofRows, of_dimensions_counted dims counted, ok_bind]
  by_cases size : rows.length = (blank dims).cells.size
  · rw [if_neg (not_not.mpr size)]
    cases uneven : rows.find? fun row => row.length ≠ dims.length with
    | some row => exact ⟨_, _, rfl⟩
    | none =>
        have even : ∀ row ∈ rows, row.length = dims.length := by simpa using uneven
        exact absurd ⟨size.trans Array.size_replicate, even⟩ misshaped
  · rw [if_pos size]
    exact ⟨_, _, rfl⟩

/-! Rows listed in a text. -/

-- A text with a number of strategies for each player and with payoffs cell by cell.
inductive Lists (dims : Dimensions) (values : List Rat) : List Token → Prop where
  | file (field title comment : String) (names : List String) (list counts note payoffs : List Token)
      (kind : field = "R" ∨ field = "D") (players : Names list names) (size : names.length = dims.length)
      (plays : Series Count counts dims) (remark : Comment note comment) (pays : Series Amount payoffs values) :
      Lists dims values ([.word "NFG", .number 1, .word field, .text title] ++ list ++
        (.opening :: (counts ++ [.closing])) ++ note ++ payoffs)

theorem lists_sentence (dims : Dimensions) (values : List Rat) (tokens : List Token) (lists : Lists dims values tokens)
    (admitted : Admitted dims) (paid : values.length = dims.count * dims.length) : ∃ description : Description,
    Sentence tokens description ∧ description.players.map Player.strategies = dims.map numberNames ∧
      description.content = .payoffs values := by
  cases lists with
  | file field title comment names list counts note payoffs kind players size plays remark pays =>
      have whole := listed_sentence field title comment names dims values list counts note payoffs kind players size plays
        remark pays admitted paid
      exact ⟨_, whole, zip_strategies names (dims.map numberNames) ((List.length_map _).trans size.symm), rfl⟩

-- Where all rows are equally long, each is found in the list of all payoffs by its length.
theorem rows_of_payoffs (players : Nat) (rows : List (List Rat)) (even : ∀ row ∈ rows, row.length = players) :
    ((List.range rows.length).map fun index => (rows.flatten.drop (index * players)).take players) = rows := by
  induction rows with
  | nil => rfl
  | cons row rows ih =>
      obtain ⟨here, others⟩ := List.forall_mem_cons.mp even
      have next (index : Nat) : (row ++ rows.flatten).drop ((index + 1) * players) =
          rows.flatten.drop (index * players) := by
        rw [Nat.succ_mul, Nat.add_comm, ← here, List.drop_append]
        simp
      rw [List.length_cons, List.range_succ_eq_map, List.map_cons, List.map_map, List.flatten_cons]
      simp only [Function.comp_def, Nat.succ_eq_add_one, next, ih others]
      rw [Nat.zero_mul, List.drop_zero, List.take_left' here]

theorem to_game_tabled (first : Nat) (dims : Dimensions) (rows : List (List Rat)) (shaped : Shaped dims rows)
    (description : Description) (tokens : List Token) (sentence : Sentence tokens description)
    (named : description.players.map Player.strategies = dims.map numberNames)
    (content : description.content = .payoffs rows.flatten) :
    description.toGame first = description.frame.tabled first rows := by
  obtain ⟨body, states⟩ := description.sentence_body tokens sentence
  have dimensions : description.dimensions = dims := dimensions_of_strategies description.players dims named
  have players : description.players.length = dims.length := by
    rw [← List.length_map Player.strategies, named, List.length_map]
  have table : description.table = rows.map (Prod.mk "") := by
    have each := congrArg (List.map (Prod.mk "")) (rows_of_payoffs dims.length rows shaped.players)
    rw [List.map_map] at each
    rw [Description.table, content]
    dsimp only
    rw [dimensions, players, ← shaped.cells]
    exact each
  have stored : description.stored = (List.range rows.length).map some := by
    rw [Description.stored, content]
    dsimp only
    rw [dimensions, shaped.cells]
  rw [description.to_game_eq first body states, table, stored]
  rfl

theorem parse_tabled (first : Nat) (dims : Dimensions) (rows : List (List Rat)) (admitted : Admitted dims)
    (held : ∀ d ∈ dims, Word.addressable d Dimensions.strategyBytes) (shaped : Shaped dims rows) (text : String)
    (tokens : List Token) (lexes : Lexes text.toList tokens) (lists : Lists dims rows.flatten tokens) :
    ∃ game, Game.parse first text = .ok game ∧ game.Tabulates first dims rows := by
  have paid : rows.flatten.length = dims.count * dims.length := by
    rw [List.length_flatten, List.map_congr_left shaped.players, List.map_const', List.sum_replicate_nat, shaped.cells]
  obtain ⟨description, sentence, named, content⟩ := lists_sentence dims _ tokens lists admitted paid
  have dimensions : description.dimensions = dims := dimensions_of_strategies description.players dims named
  have holds : description.Held := ⟨dimensions.symm ▸ held, fun listed ids same => by cases content.symm.trans same⟩
  refine ⟨_, (parse_iff_sentence first text _).mpr ⟨tokens, description, lexes, sentence, holds, rfl⟩, ?_⟩
  rw [to_game_tabled first dims rows shaped description tokens sentence named content]
  exact description.frame.tabled_tabulates first rows dims rfl named shaped

-- The payoffs in a text stand row by row. Strategies that a machine could not number are left out: there is no game
-- with them, even where another player has none and no row is missing.
theorem rows_and_text_agree (dims : Dimensions) (admitted : Admitted dims)
    (held : ∀ d ∈ dims, Word.addressable d Dimensions.strategyBytes) (rows : List (List Rat)) (first : Nat) :
    ((∃ game, ofRows first dims rows = .ok (.ok game)) ↔ Shaped dims rows) ∧
    (¬ Shaped dims rows → ∃ expected found, ofRows first dims rows = .ok (.error (.shape expected found))) ∧
    ∀ game, ofRows first dims rows = .ok (.ok game) → game.Tabulates first dims rows ∧
      ∀ text tokens, Lexes text.toList tokens → Lists dims rows.flatten tokens → ∀ other, ∃ read,
        Game.parse other text = .ok read ∧ read.Tabulates other dims rows ∧ read.SameTable game := by
  have counted := admitted_counted dims admitted held
  have made (shaped : Shaped dims rows) := of_rows_shaped first dims rows counted shaped
  have lost (misshaped : ¬ Shaped dims rows) := of_rows_misshaped first dims rows counted misshaped
  have shaped : ∀ game, ofRows first dims rows = .ok (.ok game) → Shaped dims rows := by
    intro game loaded
    by_contra misshaped
    obtain ⟨expected, found, refused⟩ := lost misshaped
    cases refused.symm.trans loaded
  refine ⟨⟨fun answered => answered.elim shaped, fun fits => ⟨_, made fits⟩⟩, lost, ?_⟩
  intro game loaded
  have fits := shaped game loaded
  cases (made fits).symm.trans loaded
  have tabulates := (blank dims).tabled_tabulates first rows dims rfl (blank_strategies dims) fits
  refine ⟨tabulates, fun text tokens lexes lists other => ?_⟩
  obtain ⟨read, parsed, same⟩ := parse_tabled other dims rows admitted held fits text tokens lexes lists
  exact ⟨read, parsed, same, tabulates_same read _ other first dims rows same tabulates⟩

theorem counted_lists (title : String) (names : List String) (counts : List Nat) (values : List Rat)
    (size : counts.length = names.length) (words : ∀ n ∈ counts, n < 2 ^ 64) :
    Lists counts values (countedTokens title names counts values) := by
  have amounts := series_alone Amount Token.number values fun value _ => amount_alone value
  have whole := Lists.file "R" title "" names _ (idTokens counts) [] (values.map Token.number) (.inl rfl) rfl size.symm
    (count_series counts words) .absent amounts
  simpa [countedTokens, headerTokens, listTokens, textTokens] using whole

-- The numbers need not be spelled as they would be written.
theorem rows_and_text_agree_pair : ∃ game read,
    ofRows 0 [2, 1] [[1, 2], [0, -1]] = .ok (.ok game) ∧
    Game.parse 7 "NFG 1 R \"t\" \x7b \"a\" \"b\" \x7d \x7b 2 1 \x7d 01 +2 0 -1" = .ok read ∧
    game.Tabulates 0 [2, 1] [[1, 2], [0, -1]] ∧ read.Tabulates 7 [2, 1] [[1, 2], [0, -1]] ∧
    read.SameTable game := by
  have scanned : tokenize "NFG 1 R \"t\" \x7b \"a\" \"b\" \x7d \x7b 2 1 \x7d 01 +2 0 -1" =
      .ok ((countedTokens "t" ["a", "b"] [2, 1] [1, 2, 0, -1]).map fun token => ⟨token, 1⟩) := by cbv
  have lexes := (tokenize_iff _ (countedTokens "t" ["a", "b"] [2, 1] [1, 2, 0, -1])).mp ⟨_, scanned, rfl⟩
  have lists := counted_lists "t" ["a", "b"] [2, 1] [1, 2, 0, -1] rfl (by decide)
  obtain ⟨made, -, agree⟩ :=
    rows_and_text_agree [2, 1] ⟨by decide, by decide⟩ (by decide) [[1, 2], [0, -1]] 0
  obtain ⟨game, loaded⟩ := made.mpr ⟨rfl, by decide⟩
  obtain ⟨tabulates, texts⟩ := agree game loaded
  obtain ⟨read, parsed, same, table⟩ := texts _ _ lexes lists 7
  exact ⟨game, read, loaded, parsed, tabulates, same, table⟩

-- No row is missing and none is too short.
theorem rows_without_game : Admitted Vast.counts ∧ Shaped Vast.counts [] ∧
    ∀ first, ofRows first Vast.counts [] = .error .unaddressable :=
  ⟨Vast.admitted, ⟨Vast.count_eq.symm, List.forall_mem_nil _⟩, fun _ => rfl⟩

end Game

end NormalForm
