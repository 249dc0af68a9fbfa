import NormalForm.Proofs.File.Cut
import NormalForm.Proofs.File.Denotation
import NormalForm.Proofs.File.RoundTrip

/-!
A file cut short. What is left of a written game is refused, is read as the game that was written, or
ends in one of two places that a reader cannot tell from the end of a file: inside the digits of the
number of the last cell, or before the outcomes where payoffs for all cells are no payoffs at all.
-/

set_option autoImplicit false

namespace NormalForm

namespace File

open Decimal

/-! Sentences whose tokens are cut short. -/

-- Two values that one reader can take from one text are the same.
theorem reads_unique {α : Type} (item : Tokens → Except ReadError (α × Tokens)) (one other rest more : List Token)
    (left right : α) (reads : Reads item one left) (also : Reads item other right)
    (same : one ++ rest = other ++ more) : left = right ∧ rest = more := by
  let placed (token : Token) : Located := ⟨token, 1⟩
  have back (tokens : List Token) : (tokens.map placed).map Located.token = tokens := by
    rw [List.map_map]
    exact List.map_id tokens
  have first := reads (one.map placed) (rest.map placed) (back one)
  have second := also (other.map placed) (more.map placed) (back other)
  rw [← List.map_append, same, List.map_append] at first
  obtain ⟨values, tokens⟩ := Prod.mk.inj (Except.ok.inj (first.symm.trans second))
  exact ⟨values, by rw [← back rest, tokens, back more]⟩

def readTable (players : Nat) (tokens : Tokens) : Except ReadError (List (String × List Rat) × Tokens) := do
  let (listed, rest) ← readOutcomes players [] tokens
  let rest ← expect .closing "end of outcome block" rest
  .ok (listed, rest)

theorem read_table_reads (players : Nat) (entries : List Token) (listed : List (String × List Rat))
    (series : Series (Listing players) entries listed) : Reads (readTable players) (entries ++ [.closing]) listed := by
  intro located rest same
  obtain ⟨outcomes, others, rfl, table, last⟩ := List.map_eq_append_iff.mp same
  obtain ⟨closing, rfl, closed⟩ := List.map_eq_singleton_iff.mp last
  have all := read_outcomes_before players entries listed series [] outcomes rest closing table closed
  rw [List.append_assoc, List.singleton_append, readTable, all, ok_bind]
  dsimp only
  rw [expect_reads .closing "end of outcome block" closing _ closed]
  rfl

theorem block_closes (players : Nat) (tokens : List Token) (names : List (List String))
    (block : StrategyBlock players tokens names) : ∃ inner, tokens = inner ++ [.closing] := by
  cases block with
  | named _ lists _ _ => exact ⟨.opening :: lists, rfl⟩
  | counted _ numbers _ _ => exact ⟨.opening :: numbers, rfl⟩

theorem blocks_unique (players : Nat) (one other rest more : List Token) (left right : List (List String))
    (block : StrategyBlock players one left) (also : StrategyBlock players other right)
    (same : one ++ rest = other ++ more) : left = right ∧ rest = more := by
  obtain ⟨first, rfl, reads⟩ := read_strategies_block players one left block
  obtain ⟨second, rfl, readsToo⟩ := read_strategies_block players other right also
  obtain ⟨rfl, tokens⟩ := reads_unique _ one other rest more first second reads readsToo same
  exact ⟨rfl, tokens⟩

-- Up to the comment nothing is lost, since every part before it ends in a brace or a quote.
theorem cut_preamble (game : Game) (field title : String) (names : List String) (strategies : List (List String))
    (list block after rest : List Token) (players : Names list names)
    (plays : StrategyBlock names.length block strategies) (cut : Cut (preambleTokens game ++ rest)
      ([.word "NFG", .number 1, .word field, .text title] ++ list ++ block ++ after)) :
    title = game.title ∧ names = game.players.map Player.name ∧ strategies = game.players.map Player.strategies ∧
      [.word "NFG", .number 1, .word field, .text title] ++ list ++ block ++ .text game.comment :: rest =
        preambleTokens game ++ rest ∧
      Cut (.text game.comment :: rest) after := by
  have split : [.word "NFG", .number 1, .word field, .text title] ++ list ++ block ++ after =
      [.word "NFG", .number 1, .word field] ++ .text title :: (list ++ (block ++ after)) := by simp
  have whole : preambleTokens game ++ rest = headerTokens ++ .text game.title ::
      (listTokens (game.players.map Player.name) ++ (strategyTokens game.players ++ .text game.comment :: rest)) := by
    simp [preambleTokens]
  rw [split, whole] at cut
  obtain ⟨afterTitle, same, titleCut⟩ := cut_behind _ _ _ _ (text_ended title) cut
  obtain ⟨-, titled⟩ := List.append_inj same rfl
  obtain ⟨named, rfl⟩ := List.cons.inj titled
  have listed : list ++ (block ++ after) = (.opening :: names.map Token.text) ++ .closing :: (block ++ after) := by
    rw [players]
    simp
  rw [listed] at titleCut
  obtain ⟨afterList, lists, listCut⟩ := cut_behind _ _ _ _ closing_ended titleCut
  have reads (texts : List String) : Reads (readTextList "player names") (listTokens texts) texts :=
    (read_text_list_recognises "player names").reads _ texts rfl
  obtain ⟨sameNames, rfl⟩ := reads_unique _ _ (listTokens names) _ afterList _ _ (reads _) (reads _) (by
    rw [lists]
    simp [listTokens, textTokens])
  obtain ⟨inner, closes⟩ := block_closes _ _ _ plays
  rw [closes, List.append_assoc, List.singleton_append] at listCut
  obtain ⟨afterBlock, blocks, blockCut⟩ := cut_behind _ _ _ _ closing_ended listCut
  have own := block_of_players game.players
  rw [← List.length_map Player.name, sameNames] at own
  obtain ⟨sameStrategies, rfl⟩ := blocks_unique _ _ block _ afterBlock _ _ own plays (by
    rw [blocks, closes]
    simp)
  refine ⟨(Token.text.inj named).symm, sameNames.symm, sameStrategies.symm, ?_, blockCut⟩
  rw [whole, same, lists, blocks, closes, players]
  simp

-- A front that declares strategies declares those of the game.
theorem cut_declares (game : Game) (rest tokens : List Token) (dims : Dimensions) (declares : Declares tokens dims)
    (cut : Cut (preambleTokens game ++ rest) tokens) : dims = game.dimensions := by
  cases declares with
  | block field title names strategies list block after kind players plays =>
      obtain ⟨-, -, rfl, -, -⟩ := cut_preamble game field title names strategies list block after rest players plays cut
      rw [List.map_map]
      rfl

theorem empty_body (players cells : Nat) (content : Content) (body : Body players cells [] content) :
    content = .payoffs [] ∧ cells * players = 0 := by
  cases body with
  | payoffs values _ each size =>
      rcases series_head Amount Leads amount_leads _ _ each with ⟨-, rfl⟩ | ⟨_, _, none, -⟩
      · exact ⟨rfl, size.symm⟩
      · cases none

theorem series_length {β : Type} (Item : List Token → β → Prop) (tokens : List Token) (values : List β)
    (starts : ∀ tokens value, Item tokens value → ∃ first later, tokens = first :: later ∧ Leads first)
    (series : Series Item tokens values) : values.length ≤ tokens.length := by
  obtain ⟨parts, rfl, each⟩ := series
  induction each with
  | nil => exact Nat.le_refl 0
  | cons here _ ih =>
      obtain ⟨first, later, rfl, -⟩ := starts _ _ here
      rw [List.flatten_cons, List.length_append, List.length_cons, List.length_cons]
      omega

-- Of the outcomes all are left, or none; and then as many numbers as there are cells.
theorem cut_content (game : Game) (valid : game.WellFormed) (shown : List Nat) (body : List Token) (content : Content)
    (cut : Cut (tableTokens game ++ idTokens shown) body)
    (states : Body game.players.length game.dimensions.count body content) :
    (body = [] ∧ content = .payoffs [] ∧ game.dimensions.count * game.players.length = 0) ∨
      ∃ ids, content = .outcomes (game.outcomes.toList.map listing) ids ∧ ids.length = game.dimensions.count ∧
        ids.length ≤ shown.length := by
  cases states with
  | outcomes listed ids entries numbers each cellByCell known size =>
      obtain ⟨later, same, idCut⟩ := cut_behind (.opening :: entries) _ _ _ closing_ended cut
      obtain ⟨rfl, rfl⟩ := reads_unique _ (game.outcomes.toList.flatMap outcomeTokens ++ [.closing])
        (entries ++ [.closing]) (idTokens shown) later _ _ (read_table_reads _ _ _ (listings_of_game game valid))
        (read_table_reads _ _ _ each) (by simpa [tableTokens] using same)
      have fewer := (series_length Whole numbers ids (fun tokens id => amount_leads tokens (id : Rat)) cellByCell).trans
        (cut_length _ _ idCut)
      rw [idTokens, List.length_map] at fewer
      exact .inr ⟨ids, rfl, size, fewer⟩
  | payoffs values _ each size =>
      rcases series_head Amount Leads amount_leads _ _ each with ⟨rfl, rfl⟩ | ⟨first, later, rfl, leads⟩
      · exact .inl ⟨rfl, rfl, size.symm⟩
      · cases cut with
        | within _ _ _ whole => cases whole
        | after =>
            rcases leads with comma | ⟨value, number⟩
            · cases comma
            · cases number

-- What can be said in a file cut short before the numbers of all cells are complete.
theorem cut_sentence (game : Game) (valid : game.WellFormed) (shown : List Nat) (tokens : List Token)
    (description : Description) (sentence : Sentence tokens description)
    (cut : Cut (preambleTokens game ++ (tableTokens game ++ idTokens shown)) tokens) :
    description.title = game.title ∧ description.players = game.players ∧
      ((description.content = .payoffs [] ∧ game.dimensions.count * game.players.length = 0 ∧
          tokens.length ≤ (preambleTokens game).length ∧
          (description.comment = "" ∨ description.comment = game.comment)) ∨
        (description.comment = game.comment ∧
          ∃ ids, description.content = .outcomes (game.outcomes.toList.map listing) ids ∧
            ids.length = game.dimensions.count ∧ ids.length ≤ shown.length)) := by
  cases sentence with
  | file field title comment names strategies content list block note body kind players plays remark admitted states =>
      rw [List.append_assoc _ note body] at cut
      obtain ⟨rfl, rfl, rfl, whole, noteCut⟩ :=
        cut_preamble game field title names strategies list block _ _ players plays cut
      have count : Dimensions.count ((game.players.map Player.strategies).map List.length) = game.dimensions.count :=
        congrArg Dimensions.count List.map_map
      rw [List.length_map, count] at states
      have size := congrArg List.length whole
      simp only [List.length_append, List.length_cons] at size
      refine ⟨rfl, zip_players game.players, ?_⟩
      cases remark with
      | absent =>
          have none : body = [] := by
            cases noteCut with
            | here => rfl
            | within _ _ _ whole => cases whole
            | after _ _ later => exact absurd rfl (body_starts _ _ _ _ states game.comment)
          subst none
          obtain ⟨rfl, unpaid⟩ := empty_body _ _ _ states
          refine .inl ⟨rfl, unpaid, ?_, .inl rfl⟩
          simp only [List.length_append, List.length_cons, List.length_nil]
          omega
      | present =>
          cases noteCut with
          | within _ _ _ whole => cases whole
          | after _ _ _ bodyCut =>
              rcases cut_content game valid shown body content bodyCut states with ⟨rfl, rfl, unpaid⟩ | some
              · refine .inl ⟨rfl, unpaid, ?_, .inr rfl⟩
                simp only [List.length_append, List.length_cons, List.length_nil]
                omega
              · exact .inr ⟨rfl, some⟩

/-! Numbers cut short. -/

theorem digits_front (n : Nat) (front more : List Char) (some : front ≠ []) (written : digits n = front ++ more) :
    ∃ lead ≤ n, digits lead = front := by
  induction n using Nat.strongRecOn generalizing more with
  | ind n ih =>
      rcases List.eq_nil_or_concat' more with rfl | ⟨fewer, last, rfl⟩
      · exact ⟨n, Nat.le_refl n, by rw [written, List.append_nil]⟩
      · by_cases small : n < 10
        · have length := congrArg List.length written
          have nonempty := List.length_pos_iff.mpr some
          rw [digits_of_lt small, List.length_append, List.length_append] at length
          simp only [List.length_singleton] at length
          omega
        · rw [digits_of_ge (Nat.le_of_not_lt small), ← List.append_assoc] at written
          obtain ⟨shorter, -⟩ := List.append_inj' written rfl
          obtain ⟨lead, least, same⟩ := ih (n / 10) (by omega) fewer shorter
          exact ⟨lead, by omega, same⟩

theorem line_end_blank : ∀ c ∈ [' ', '\n'], Text.isBlank c = true :=
  List.forall_mem_cons.mpr ⟨by decide, List.forall_mem_singleton.mpr (by decide)⟩

-- A number may end with the text.
theorem number_lexes (n : Nat) (blanks : List Char) (blank : ∀ c ∈ blanks, Text.isBlank c = true) :
    Lexes (digits n ++ blanks) [.number (n : Rat)] := by
  have denotes := natural_denotes n
  obtain ⟨c, run, starts⟩ := List.exists_cons_of_ne_nil denotes.nonempty
  rw [starts] at denotes ⊢
  have numeric : ∀ d ∈ c :: run, Numeric d := fun d member => numeric_of_numeral_char d (denotes.chars d member)
  obtain ⟨first, others⟩ := List.forall_mem_cons.mp numeric
  have notLetter : ¬ Letter c := fun letter => by
    rw [← is_letter_iff, first.notLetter] at letter
    cases letter
  have ends : Ends Plain blanks := fun d head plain => by
    have here := blank d (List.mem_of_mem_head? head)
    rw [plain.solid] at here
    cases here
  exact .token _ blanks _ [] (.number c run blanks n ((is_number_char_iff c).mp first.goes) notLetter
    (fun d member => (is_number_char_iff d).mp (others d member).goes) ends denotes.value) (blanks_lex blanks blank)

/-! Texts cut short. -/

theorem parse_iff_sentence (first : Nat) (text : String) (game : Game) : Game.parse first text = .ok game ↔
    ∃ tokens description, Lexes text.toList tokens ∧ Sentence tokens description ∧ description.Held ∧
      game = description.toGame first := by
  constructor
  · intro run
    obtain ⟨located, scanned, run⟩ := bind_eq_ok.mp run
    obtain ⟨description, read, finish⟩ := bind_eq_ok.mp run
    cases finish
    obtain ⟨sentence, held⟩ := (read_description_iff located description).mp read
    exact ⟨_, description, (tokenize_iff text _).mp ⟨located, scanned, rfl⟩, sentence, held, rfl⟩
  · rintro ⟨tokens, description, lexes, sentence, held, rfl⟩
    obtain ⟨located, scanned, rfl⟩ := (tokenize_iff text tokens).mpr lexes
    rw [Game.parse, scanned, ok_bind, (read_description_iff located description).mpr ⟨sentence, held⟩, ok_bind]

-- A front with no more tokens than come before the outcomes does not reach them.
theorem early_front (before : List Char) (tokens : List Token) (yields : Yields before tokens)
    (front missing rest : List Char) (split : front ++ missing = before ++ '\x7b' :: rest) (all : List Token)
    (lexes : Lexes front all) (few : all.length ≤ tokens.length) : front <+: before := by
  rcases List.append_eq_append_iff.mp split with ⟨more, rfl, -⟩ | ⟨extra, rfl, starts⟩
  · exact List.prefix_append front more
  · cases extra with
    | nil => exact ⟨[], by rw [List.append_nil, List.append_nil]⟩
    | cons c extra =>
        obtain ⟨rfl, -⟩ := List.cons.inj starts
        obtain ⟨later, rfl, others⟩ := (yields_lexes before _ tokens all yields).mp lexes
        obtain ⟨token, _, remaining, rfl, -⟩ := lexes_solid _ later '\x7b' extra rfl (by decide) others
        rw [List.length_append, List.length_cons] at few
        omega

theorem cell_ids_of_places (description : Description) (first : Nat) (listed : List (String × List Rat))
    (ids : List Nat) (content : description.content = .outcomes listed ids) :
    (description.toGame first).cellIds = ids := by
  have cells : (description.toGame first).cells = (ids.map Description.placeOfId).toArray := by
    rw [Description.toGame, content]
    rfl
  rw [Game.cellIds, cells, List.map_map]
  refine (List.map_congr_left fun id _ => ?_).trans (List.map_id ids)
  cases id with
  | zero => rfl
  | succ place => rfl

end File

namespace Game

open File Decimal

-- Every cell has an outcome of its own, without a label and without payoffs.
structure Bare (back game : Game) : Prop where
  title : back.title = game.title
  comment : back.comment = "" ∨ back.comment = game.comment
  players : back.players = game.players
  outcomes : back.outcomes.toList.map Outcome.described =
    (List.range game.cells.size).map fun place => (place + 1, "", [])
  ids : back.cellIds = (List.range game.cells.size).map (· + 1)

theorem payoff_form_bare (game : Game) (valid : game.WellFormed) (first : Nat) (description : Description)
    (title : description.title = game.title) (comment : description.comment = "" ∨ description.comment = game.comment)
    (players : description.players = game.players) (content : description.content = .payoffs []) (tokens : List Token)
    (sentence : Sentence tokens description) :
    (description.toGame first).Bare game := by
  obtain ⟨body, states⟩ := description.sentence_body tokens sentence
  have count : description.dimensions.count = game.cells.size := by
    rw [valid.cells, Description.dimensions, players]
    rfl
  have frame := Description.add_listed_frame description.table description.frame first
  have table : description.table = (List.range game.cells.size).map fun _ => ("", []) := by
    simp [Description.table, content, count]
  have stored : description.stored = (List.range game.cells.size).map some := by
    simp [Description.stored, content, count]
  rw [description.to_game_eq first body states]
  refine ⟨frame.1.trans title, comment.imp frame.2.1.trans frame.2.1.trans, frame.2.2.1.trans players, ?_, ?_⟩
  · refine (listed_outcomes_described description.frame rfl first description.table).trans ?_
    rw [table]
    apply List.ext_getElem?
    intro place
    by_cases inside : place < game.cells.size
    · simp [inside, Nat.add_comm]
    · simp [inside]
  · simp [cellIds, stored]

-- Where no payoffs are due, a file without outcomes is one with payoffs for all cells.
theorem front_reads (game : Game) (valid : game.WellFormed) (shown : List Nat) (table ids front missing : List Char)
    (outcomes : Yields ('\x7b' :: table) (tableTokens game)) (numbers : Yields ids (idTokens shown))
    (fewer : shown.length < game.cellIds.length ∨ game.cellIds = [])
    (split : front ++ missing = (preamble game).flatMap String.toList ++ ('\x7b' :: table ++ ids)) (first : Nat)
    (text : String) (same : text.toList = front) (back : Game) (read : Game.parse first text = .ok back) :
    back = (describe game).toGame first ∨
      ((game.players = [] ∨ game.cells.size = 0) ∧
        front <+: (preamble game).flatMap String.toList ∧ back.Bare game) := by
  obtain ⟨tokens, description, lexes, sentence, held, rfl⟩ := (parse_iff_sentence first text back).mp read
  have yields := yields_append _ _ _ _ (yields_preamble game) (yields_append _ _ _ _ outcomes numbers)
  have all := (yields_lexes _ [] _ _ yields).mpr ⟨[], (List.append_nil _).symm, .done⟩
  rw [List.append_nil, ← split, ← same] at all
  rcases cut_sentence game valid shown tokens description sentence (lexes_cut _ missing tokens _ lexes all) with
    ⟨title, players, ⟨content, unpaid, few, comment⟩ | ⟨comment, others, content, size, known⟩⟩
  · refine .inr ⟨?_, ?_, payoff_form_bare game valid first description title comment players content tokens sentence⟩
    · rcases Nat.mul_eq_zero.mp unpaid with none | alone
      · exact .inr (valid.cells.trans none)
      · exact .inl (List.eq_nil_of_length_eq_zero alone)
    · exact early_front _ _ (yields_preamble game) front missing (table ++ ids) split tokens (same ▸ lexes) few
  · have count := cell_ids_length game valid
    rcases fewer with less | none
    · omega
    · rw [none, List.length_nil] at count
      have nobody : others = [] := List.eq_nil_of_length_eq_zero (size.trans count.symm)
      obtain ⟨_, _, _, _⟩ := description
      cases title
      cases comment
      cases players
      cases content
      rw [nobody, ← none]
      exact .inl rfl

-- A front of a written text declares no more than a game that can be held.
theorem front_faultless (game : Game) (valid : game.WellFormed) (shown : List Nat) (front missing : String)
    (all : Lexes (front ++ missing).toList (preambleTokens game ++ (tableTokens game ++ idTokens shown))) (first : Nat) :
    Faultless (Game.parse first front) := by
  intro failure failed
  refine fault_eq_none failure ?_
  rintro rfl
  obtain ⟨tokens, dims, lexes, declares, -, lost⟩ := (parse_faults_iff first front).mp failed
  rw [String.toList_append] at all
  obtain rfl := cut_declares game _ tokens dims declares (lexes_cut _ missing.toList tokens _ lexes all)
  exact lost (game.dimensions.count_addressable valid.addressable).1

-- How a front can be read: as the whole text is, with a shorter number in the last cell, or without the
-- outcomes.
inductive FrontReading (game whole back : Game) (front missing : String) : Prop where
  | whole (same : back = whole)
  | shorter (ids : List Nat) (last lead : Nat) (more : List Char) (cells : whole.cellIds = ids ++ [last])
      (shorter : back.cellIds = ids ++ [lead]) (others : back = { whole with cells := back.cells })
      (written : Decimal.digits last = Decimal.digits lead ++ more) (lost : missing.toList = more ++ [' ', '\n'])
  | bare (unpaid : game.players = [] ∨ game.cells.size = 0)
      (early : front.toList <+: (String.join (preamble game)).toList) (bare : back.Bare game)

theorem parse_cells (game : Game) (valid : game.WellFormed) (small : game.cells.size ≤ maxCells)
    (fits : Word.fits game.outcomes.size) (ids : List Nat) (known : ∀ id ∈ ids, id ≤ game.outcomes.size)
    (size : ids.length = game.cellIds.length) (first : Nat) (text : String)
    (lexes : Lexes text.toList (preambleTokens game ++ (tableTokens game ++ idTokens ids))) :
    Game.parse first text = .ok ((describeCells game ids).toGame first) := by
  have count := size.trans (cell_ids_length game valid)
  exact (parse_iff_sentence first text _).mpr ⟨_, _, lexes, sentence_of_cells game valid small ids known count,
    describe_cells_held game valid fits ids known, rfl⟩

-- A front that ends behind digits of the last number is read with the number that they spell.
theorem ended_number_reads (game : Game) (valid : game.WellFormed) (small : game.cells.size ≤ maxCells)
    (fits : Word.fits game.outcomes.size) (start : List Char) (ids : List Nat) (last number : Nat)
    (before : Yields start (preambleTokens game ++ (tableTokens game ++ idTokens ids)))
    (cells : game.cellIds = ids ++ [last]) (least : number ≤ last) (blanks : List Char)
    (blank : ∀ c ∈ blanks, Text.isBlank c = true) (first : Nat) (front : String)
    (whole : front.toList = start ++ (digits number ++ blanks)) :
    Game.parse first front = .ok ((describeCells game (ids ++ [number])).toGame first) := by
  have known := cell_ids_known game valid
  rw [cells, List.forall_mem_append] at known
  have listed : ∀ id ∈ ids ++ [number], id ≤ game.outcomes.size := by
    rw [List.forall_mem_append]
    exact ⟨known.1, List.forall_mem_singleton.mpr (least.trans (known.2 last List.mem_cons_self))⟩
  have tokens : preambleTokens game ++ (tableTokens game ++ idTokens (ids ++ [number])) =
      preambleTokens game ++ (tableTokens game ++ idTokens ids) ++ [.number (number : Rat)] := by
    simp [idTokens]
  refine parse_cells game valid small fits (ids ++ [number]) listed (by simp [cells]) first front ?_
  rw [whole, tokens]
  exact (yields_lexes _ _ _ _ before).mpr ⟨_, rfl, number_lexes number blanks blank⟩

-- The cut is before the number of the last cell, within its digits, or behind them.
theorem last_number_reads (game : Game) (valid : game.WellFormed) (small : game.cells.size ≤ maxCells)
    (fits : Word.fits game.outcomes.size) (table : List Char) (outcomes : Yields ('\x7b' :: table) (tableTokens game))
    (ids : List Nat) (last : Nat) (cells : game.cellIds = ids ++ [last]) (first : Nat) (front missing : String)
    (split : front.toList ++ missing.toList =
      (preamble game).flatMap String.toList ++ ('\x7b' :: table ++ idText ids) ++ (digits last ++ [' ', '\n']))
    (back : Game) (read : Game.parse first front = .ok back) :
    game.FrontReading ((describe game).toGame first) back front missing := by
  have before := yields_append _ _ _ _ (yields_preamble game) (yields_append _ _ _ _ outcomes (yields_ids ids))
  have early (more : List Char) (begun : front.toList ++ more =
      (preamble game).flatMap String.toList ++ ('\x7b' :: table ++ idText ids)) :
      game.FrontReading ((describe game).toGame first) back front missing := by
    have fewer : ids.length < game.cellIds.length := by simp [cells]
    rcases front_reads game valid ids table (idText ids) _ more outcomes (yields_ids ids) (.inl fewer) begun first
      front rfl back read with same | ⟨unpaid, early, bare⟩
    · exact .whole same
    · exact .bare unpaid (by rwa [String.toList_join]) bare
  rcases List.append_eq_append_iff.mp split with ⟨more, begun, -⟩ | ⟨extra, passed, rest⟩
  · exact early more begun.symm
  · rcases List.append_eq_append_iff.mp rest with ⟨blanks, rfl, blank⟩ | ⟨more, written, lost⟩
    · have all : ∀ c ∈ blanks, Text.isBlank c = true := fun c member =>
        line_end_blank c (blank ▸ List.mem_append_left _ member)
      have whole := ended_number_reads game valid small fits _ ids last last before cells (Nat.le_refl last) blanks all
        first front passed
      rw [← cells] at whole
      exact .whole (Except.ok.inj (read.symm.trans whole))
    · by_cases none : extra = []
      · rw [none, List.append_nil] at passed
        exact early [] (by rw [passed, List.append_nil])
      · obtain ⟨lead, least, rfl⟩ := digits_front last extra more none written
        have shorter := ended_number_reads game valid small fits _ ids last lead before cells least []
          (List.forall_mem_nil _) first front (by rw [passed, List.append_nil])
        obtain rfl := Except.ok.inj (read.symm.trans shorter)
        have whole : ((describe game).toGame first).cellIds = ids ++ [last] :=
          (cell_ids_of_places (describe game) first _ _ rfl).trans cells
        exact .shorter ids last lead more whole
          (cell_ids_of_places (describeCells game (ids ++ [lead])) first _ _ rfl) rfl written lost

theorem written_front_reads (game : Game) (reached : game.Reachable) (small : game.cells.size ≤ 2 ^ 20)
    (fits : Word.fits game.outcomes.size) (places first : Nat) :
    (places < 65536 → ∃ text, game.toText places = .ok text) ∧
    ∀ text, game.toText places = .ok text → ∃ whole, Game.parse first text = .ok whole ∧
      ∀ front missing : String, front ++ missing = text →
        (∃ failure, Game.parse first front = .error failure ∧ failure.fault? = none) ∨
          ∃ back, Game.parse first front = .ok back ∧ game.FrontReading whole back front missing := by
  have valid := reachable_well_formed game reached
  refine ⟨fun within => to_text_succeeds places (Nat.le_of_lt_succ within) game, ?_⟩
  intro text written
  obtain ⟨table, parts, outcomes⟩ := text_parts places game text written
  have numbers := yields_append _ _ _ _ (yields_ids game.cellIds) yields_line_break
  have yields := yields_append _ _ _ _ (yields_preamble game) (yields_append _ _ _ _ outcomes numbers)
  have all := (yields_lexes _ [] _ _ yields).mpr ⟨[], (List.append_nil _).symm, .done⟩
  rw [List.append_nil, List.append_nil, ← parts] at all
  have whole := parse_cells game valid small fits game.cellIds (cell_ids_known game valid) rfl first text all
  refine ⟨_, whole, ?_⟩
  rintro front missing rfl
  have faultless := front_faultless game valid game.cellIds front missing all first
  rw [String.toList_append] at parts
  cases read : Game.parse first front with
  | error failure => exact .inl ⟨failure, rfl, faultless failure read⟩
  | ok back =>
      refine .inr ⟨back, rfl, ?_⟩
      rcases List.eq_nil_or_concat' game.cellIds with none | ⟨ids, last, cells⟩
      · have line : Yields (idText game.cellIds ++ ['\n']) (idTokens []) := by
          rw [none]
          exact yields_line_break
        rcases front_reads game valid [] table _ _ _ outcomes line (.inr none) parts first front rfl back read with
          same | ⟨unpaid, early, bare⟩
        · exact .whole same
        · exact .bare unpaid (by rwa [String.toList_join]) bare
      · have last : '\x7b' :: table ++ (idText game.cellIds ++ ['\n']) =
            '\x7b' :: table ++ idText ids ++ (digits last ++ [' ', '\n']) := by
          simp [cells, idText]
        rw [last, ← List.append_assoc] at parts
        exact last_number_reads game valid small fits table outcomes ids _ cells first front missing parts back read

/-! One cell, which holds the tenth of ten outcomes. -/

def tenth : List Operation :=
  (List.range 10).map (fun place => .newOutcome ⟨place + 1⟩) ++ [.setOutcome [0] (some ⟨10⟩)]

theorem tenth_made : ∃ game, (blank [1]).performAll tenth = .ok game ∧ game.cellIds = [10] ∧ game.cells.size = 1 ∧
    game.outcomes.size = 10 :=
  ⟨_, rfl, rfl, rfl, rfl⟩

theorem written_front_reads_tenth :
    ∃ game, (blank [1]).performAll tenth = .ok game ∧ ∃ text whole, game.toText 2 = .ok text ∧
      Game.parse 1 text = .ok whole ∧ ∀ front missing : String, front ++ missing = text →
        (∃ failure, Game.parse 1 front = .error failure ∧ failure.fault? = none) ∨
          ∃ back, Game.parse 1 front = .ok back ∧ game.FrontReading whole back front missing := by
  obtain ⟨game, made, -, cells, outcomes⟩ := tenth_made
  obtain ⟨succeeds, reads⟩ := written_front_reads game ⟨[1], _, _, rfl, made⟩ (by rw [cells]; decide)
    (by rw [outcomes]; decide) 2 1
  obtain ⟨text, written⟩ := succeeds (by decide)
  obtain ⟨whole, read, fronts⟩ := reads text written
  exact ⟨game, made, text, whole, written, read, fronts⟩

-- Without the last three characters the text ends in a one, and is read with the first outcome in the cell.
theorem shorter_number_reads :
    ∃ game, (blank [1]).performAll tenth = .ok game ∧ ∃ front whole back, game.toText 2 = .ok (front ++ "0 \n") ∧
      Game.parse 1 (front ++ "0 \n") = .ok whole ∧ Game.parse 1 front = .ok back ∧
      whole.cellIds = [10] ∧ back.cellIds = [1] := by
  obtain ⟨game, made, ids, cells, size⟩ := tenth_made
  have valid := reachable_well_formed game ⟨[1], _, _, rfl, made⟩
  have small : game.cells.size ≤ maxCells := by rw [cells]; decide
  have fits : Word.fits game.outcomes.size := by rw [size]; decide
  obtain ⟨text, written⟩ := to_text_succeeds 2 (by decide) game
  obtain ⟨table, parts, outcomes⟩ := text_parts 2 game text written
  have ten : digits 10 = ['1', '0'] := by
    rw [digits_of_ge (by decide), digits_of_lt (by decide)]
    rfl
  have one : digits 1 = ['1'] := digits_of_lt (by decide)
  let start := (preamble game).flatMap String.toList ++ ('\x7b' :: table ++ idText [])
  have before := yields_append _ _ _ _ (yields_preamble game) (yields_append _ _ _ _ outcomes (yields_ids []))
  have split : text = String.ofList (start ++ ['1']) ++ "0 \n" := by
    apply String.toList_injective
    rw [parts, String.toList_append, String.toList_ofList, ids]
    simp [start, idText, ten]
  subst split
  have whole := ended_number_reads game valid small fits start [] 10 10 before ids (Nat.le_refl 10) [' ', '\n']
    line_end_blank 1 (String.ofList (start ++ ['1']) ++ "0 \n") (by simp [ten])
  have back := ended_number_reads game valid small fits start [] 10 1 before ids (by decide) []
    (List.forall_mem_nil _) 1 (String.ofList (start ++ ['1'])) (by simp [one])
  exact ⟨game, made, _, _, _, written, whole, back, cell_ids_of_places (describeCells game [10]) 1 _ _ rfl,
    cell_ids_of_places (describeCells game [1]) 1 _ _ rfl⟩

end Game

end NormalForm
