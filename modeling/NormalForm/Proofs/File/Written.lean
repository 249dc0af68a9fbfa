import NormalForm.File.Writer
import NormalForm.Proofs.Fault.Sequence
import NormalForm.Proofs.File.Tokens

/-!
The tokens of a written game, piece by piece. Every game can be written with any number of places up
to the limit, and its text yields exactly these tokens.
-/

set_option autoImplicit false

namespace NormalForm.File

open Text Decimal

def textTokens (texts : List String) : List Token := texts.map .text

def listTokens (texts : List String) : List Token := .opening :: (textTokens texts ++ [.closing])

def payoffTokens : List Rat → List Token
  | [] => []
  | first :: rest => .number first :: rest.flatMap fun value => [.comma, .number value]

def outcomeTokens (outcome : Outcome) : List Token :=
  .opening :: .text outcome.label :: (payoffTokens outcome.payoffs ++ [.closing])

def headerTokens : List Token := [.word "NFG", .number 1, .word "R"]

def strategyTokens (players : List Player) : List Token :=
  .opening :: (players.flatMap (fun player => listTokens player.strategies) ++ [.closing])

def idTokens (ids : List Nat) : List Token := ids.map fun (id : Nat) => .number (id : Rat)

def contentTokens (game : Game) : List Token :=
  .opening :: (game.outcomes.toList.flatMap outcomeTokens ++ .closing :: idTokens game.cellIds)

-- The head without the brace that opens the outcomes.
def preambleTokens (game : Game) : List Token :=
  headerTokens ++ .text game.title :: (listTokens (game.players.map Player.name) ++
    (strategyTokens game.players ++ [.text game.comment]))

def tableTokens (game : Game) : List Token :=
  .opening :: (game.outcomes.toList.flatMap outcomeTokens ++ [.closing])

def fileTokens (game : Game) : List Token :=
  headerTokens ++ .text game.title :: (listTokens (game.players.map Player.name) ++
    (strategyTokens game.players ++ .text game.comment :: contentTokens game))

theorem file_tokens_eq (game : Game) :
    fileTokens game = preambleTokens game ++ (tableTokens game ++ idTokens game.cellIds) := by
  simp [fileTokens, preambleTokens, contentTokens, tableTokens]

/-! Marks and blanks. -/

theorem yields_opening : Yields ['{'] [.opening] := yields_mark '{' .opening (by decide) (by decide)

theorem yields_closing : Yields ['}'] [.closing] := yields_mark '}' .closing (by decide) (by decide)

theorem yields_comma : Yields [','] [.comma] := yields_mark ',' .comma (by decide) (by decide)

theorem yields_space : Yields [' '] [] := yields_blank ' ' (by decide)

theorem yields_line_break : Yields ['\n'] [] := yields_blank '\n' (by decide)

theorem yields_open_space : Yields "\x7b ".toList [.opening] :=
  yields_append ['{'] [' '] _ _ yields_opening yields_space

theorem yields_close_line : Yields "\x7d\n".toList [.closing] :=
  yields_append ['}'] ['\n'] _ _ yields_closing yields_line_break

/-! The head of a file. -/

theorem yields_header : Yields "NFG 1 R ".toList headerTokens := by
  have one : Denotes ['1'] 1 := by
    have written := natural_denotes 1
    rw [digits_of_lt (by decide), Nat.cast_one] at written
    exact written
  have field : Yields ("R".toList ++ [' ']) [.word "R"] :=
    yields_word_before [] 'R' ' ' [] [] (by decide) (by decide) (by decide) (by decide) nofun (by decide)
      yields_space
  have version : Yields (['1'] ++ ' ' :: ("R".toList ++ [' '])) [.number 1, .word "R"] :=
    yields_number_before ['1'] 1 ' ' _ _ one (by decide) (yields_append [' '] _ [] _ yields_space field)
  have goes : ∀ d ∈ ['F', 'G'], isWordChar d = true :=
    List.forall_mem_cons.mpr ⟨by decide, List.forall_mem_singleton.mpr (by decide)⟩
  exact yields_word_before ['F', 'G'] 'N' ' ' _ _ (by decide) (by decide) (by decide) (by decide) goes
    (by decide) (yields_append [' '] _ [] _ yields_space version)

theorem yields_quoted_pieces (texts : List String) :
    Yields ((quotedPieces texts).flatMap String.toList) (textTokens texts) := by
  have each := yields_flat_map texts (fun text => (quote text ++ " ").toList) (fun text => [.text text])
    fun text _ => by
      rw [String.toList_append]
      exact yields_append _ _ _ [] (yields_quote text) yields_space
  rw [quotedPieces, List.flatMap_map, textTokens, List.map_eq_flatMap]
  exact each

theorem yields_player_pieces (player : Player) :
    Yields ((playerPieces player).flatMap String.toList) (listTokens player.strategies) := by
  have names := yields_append _ _ _ _ (yields_quoted_pieces player.strategies) yields_close_line
  have whole := yields_append _ _ _ _ yields_open_space names
  simpa [playerPieces, listTokens] using whole

-- What is written before the outcomes.
def preamble (game : Game) : List String :=
  ["NFG 1 R " ++ Text.quote game.title ++ " \x7b "] ++
    quotedPieces (game.players.map Player.name) ++
    ["\x7d\n\n\x7b "] ++
    game.players.flatMap playerPieces ++
    ["\x7d\n", Text.quote game.comment ++ "\n\n"]

theorem head_pieces_eq (game : Game) : headPieces game = preamble game ++ ["\x7b\n"] := by
  simp [headPieces, preamble]

theorem yields_preamble (game : Game) : Yields ((preamble game).flatMap String.toList) (preambleTokens game) := by
  have title := yields_append _ _ _ _ (yields_quote game.title)
    (yields_append [' '] _ _ _ yields_space yields_open_space)
  have comment := yields_append _ _ _ _ (yields_quote game.comment)
    (yields_append ['\n'] ['\n'] _ _ yields_line_break yields_line_break)
  have between := yields_append _ _ _ _ yields_close_line
    (yields_append ['\n'] _ _ _ yields_line_break yields_open_space)
  have players := yields_flat_map game.players
    (fun player => (playerPieces player).flatMap String.toList) (fun player => listTokens player.strategies)
    fun player _ => yields_player_pieces player
  have whole := yields_append _ _ _ _ yields_header (yields_append _ _ _ _ title
    (yields_append _ _ _ _ (yields_quoted_pieces (game.players.map Player.name))
      (yields_append _ _ _ _ between (yields_append _ _ _ _ players
        (yields_append _ _ _ _ yields_close_line comment)))))
  simpa [preamble, preambleTokens, listTokens, strategyTokens, List.flatMap_assoc] using whole

/-! Outcomes and cells. -/

theorem payoff_text_succeeds (places : Nat) (within : places ≤ maxPlaces) (value : Rat) :
    ∃ text, payoffText places value = .ok text := by
  obtain ⟨numeral, written⟩ := numeral_succeeds value places within
  exact ⟨String.ofList numeral, by rw [payoffText, written]; rfl⟩

theorem payoff_text_denotes (places : Nat) (value : Rat) (text : String)
    (written : payoffText places value = .ok text) : Denotes text.toList value := by
  rw [payoffText] at written
  cases run : numeral value places with
  | error fault =>
      rw [run] at written
      cases written
  | ok numeral =>
      rw [run] at written
      cases written
      rw [String.toList_ofList]
      exact numeral_denotes value places numeral run

/-! Numbers with blanks and commas after them. -/

theorem yields_number_blank (text : String) (value : Rat) (denotes : Denotes text.toList value) :
    Yields (text ++ " ").toList [.number value] := by
  rw [String.toList_append]
  exact yields_number_before text.toList value ' ' [] [] denotes (by decide) yields_space

-- The payoffs of an outcome and the blank after them; each number ends at a comma or at that blank.
theorem yields_payoffs (texts : List String) (values : List Rat)
    (written : List.Forall₂ (fun value text => Denotes text.toList value) values texts) :
    Yields ((String.intercalate ", " texts).toList ++ [' ']) (payoffTokens values) := by
  induction written with
  | nil => exact yields_space
  | @cons value text values texts denotes others ih =>
      cases others with
      | nil => exact yields_number_before text.toList value ' ' [] [] denotes (by decide) yields_space
      | @cons second next values texts denotesNext others =>
          have separator : Yields (", ".toList ++ ((String.intercalate ", " (next :: texts)).toList ++ [' ']))
              (.comma :: payoffTokens (second :: values)) :=
            yields_append [','] _ [.comma] _ yields_comma (yields_append [' '] _ [] _ yields_space ih)
          rw [String.intercalate_cons_of_ne_nil (List.cons_ne_nil next texts), String.toList_append,
            String.toList_append, List.append_assoc, List.append_assoc]
          exact yields_number_before text.toList value ',' _ _ denotes (by decide) separator

theorem outcome_piece_succeeds (places : Nat) (within : places ≤ maxPlaces) (outcome : Outcome) :
    ∃ piece, outcomePiece places outcome = .ok piece := by
  obtain ⟨texts, written, -⟩ := map_m_succeeds outcome.payoffs (payoffText places) (fun _ _ => True) fun value _ =>
    (payoff_text_succeeds places within value).imp fun _ text => ⟨text, trivial⟩
  exact ⟨_, by rw [outcomePiece, written]; rfl⟩

theorem yields_outcome_piece (places : Nat) (outcome : Outcome) (piece : String)
    (written : outcomePiece places outcome = .ok piece) : Yields piece.toList (outcomeTokens outcome) := by
  obtain ⟨texts, run, finish⟩ := bind_eq_ok.mp written
  cases finish
  have denotes := (map_m_each outcome.payoffs (payoffText places) texts run).imp (payoff_text_denotes places)
  have label := yields_append _ _ _ _ (yields_quote outcome.label) yields_space
  have payoffs := yields_append _ _ _ _ (yields_payoffs texts outcome.payoffs denotes) yields_close_line
  have whole := yields_append _ _ _ _ yields_open_space (yields_append _ _ _ _ label payoffs)
  simpa [outcomeTokens] using whole

def idText (ids : List Nat) : List Char := ids.flatMap fun id => digits id ++ [' ']

theorem yields_ids (ids : List Nat) : Yields (idText ids) (idTokens ids) := by
  have each := yields_flat_map ids (fun id => digits id ++ [' ']) (fun id => [.number (id : Rat)]) fun id _ =>
    yields_number_before (digits id) id ' ' [] [] (natural_denotes id) (by decide) yields_space
  rw [idTokens, List.map_eq_flatMap]
  exact each

/-! The whole file. -/

theorem yields_pieces {β : Type} (items : List β) (texts : List String) (tokens : β → List Token)
    (each : List.Forall₂ (fun item text => Yields text.toList (tokens item)) items texts) :
    Yields (texts.flatMap String.toList) (items.flatMap tokens) := by
  induction each with
  | nil => exact yields_nil
  | cons here _ ih => exact yields_append _ _ _ _ here ih

theorem map_m_ok (texts : List String) : (texts.map Except.ok).mapM id = (.ok texts : Except Fault _) := by
  rw [List.mapM_map]
  exact List.mapM_pure.trans (congrArg Except.ok (List.map_id texts))

theorem pieces_eq (places : Nat) (game : Game) : (pieces places game).mapM id = (do
    let outcomes ← game.outcomes.toList.mapM (outcomePiece places)
    return headPieces game ++ outcomes ++ cellPieces game) := by
  have made : (game.outcomes.toList.map (outcomePiece places)).mapM id =
      game.outcomes.toList.mapM (outcomePiece places) := List.mapM_map
  rw [pieces, List.mapM_append, List.mapM_append, map_m_ok, map_m_ok, made]
  cases game.outcomes.toList.mapM (outcomePiece places) with
  | error fault => rfl
  | ok outcomes => rfl

-- A text is written for every game, unless there are too many places.
theorem to_text_succeeds (places : Nat) (within : places ≤ maxPlaces) (game : Game) :
    ∃ text, game.toText places = .ok text := by
  obtain ⟨outcomes, written, -⟩ := map_m_succeeds game.outcomes.toList (outcomePiece places) (fun _ _ => True)
    fun outcome _ => (outcome_piece_succeeds places within outcome).imp fun _ piece => ⟨piece, trivial⟩
  exact ⟨_, by rw [Game.toText, pieces_eq, written]; rfl⟩

-- The outcomes stand between braces, and the numbers of the cells come last.
theorem text_parts (places : Nat) (game : Game) (text : String) (written : game.toText places = .ok text) :
    ∃ table, text.toList = (preamble game).flatMap String.toList ++
        ('\x7b' :: table ++ (idText game.cellIds ++ ['\n'])) ∧
      Yields ('\x7b' :: table) (tableTokens game) := by
  rw [Game.toText, pieces_eq] at written
  obtain ⟨all, run, finish⟩ := bind_eq_ok.mp written
  obtain ⟨outcomes, made, same⟩ := bind_eq_ok.mp run
  cases same
  cases finish
  have ids : (cellPieces game).flatMap String.toList = "\x7d\n".toList ++ (idText game.cellIds ++ ['\n']) := by
    simp only [cellPieces, List.flatMap_append, List.flatMap_map, List.flatMap_singleton, String.toList_append,
      to_list_repr, idText, List.append_assoc]
    rfl
  have each := (map_m_each game.outcomes.toList (outcomePiece places) outcomes made).imp (yields_outcome_piece places)
  have table := yields_append _ _ _ _ (yields_append ['\x7b'] ['\n'] _ _ yields_opening yields_line_break)
    (yields_append _ _ _ _ (yields_pieces game.outcomes.toList outcomes outcomeTokens each) yields_close_line)
  refine ⟨'\n' :: (outcomes.flatMap String.toList ++ "\x7d\n".toList), ?_, table⟩
  rw [String.toList_join, head_pieces_eq, List.flatMap_append, List.flatMap_append, List.flatMap_append, ids]
  simp

theorem to_text_yields (places : Nat) (within : places ≤ maxPlaces) (game : Game) :
    ∃ text, game.toText places = .ok text ∧ Yields text.toList (fileTokens game) := by
  obtain ⟨text, written⟩ := to_text_succeeds places within game
  obtain ⟨table, parts, yields⟩ := text_parts places game text written
  have ids := yields_append _ _ _ _ (yields_ids game.cellIds) yields_line_break
  have whole := yields_append _ _ _ _ (yields_preamble game) (yields_append _ _ _ _ yields ids)
  rw [List.append_nil, ← file_tokens_eq, ← parts] at whole
  exact ⟨text, written, whole⟩

end NormalForm.File
