import NormalForm.Proofs.Dimensions.Numbering
import NormalForm.Proofs.File.Parsing

/-!
Whole files: a text is taken when its tokens form a sentence and the machine can hold what the sentence
describes, and then the description is that of the sentence.
-/

set_option autoImplicit false

namespace NormalForm.File

/-! Outcomes and cells. -/

theorem read_outcome_recognises (players : Nat) : Recognises (readOutcome players) (Listing players) where
  reads := by
    rintro tokens ⟨label, payoffs⟩ ⟨numbers, rfl, series, size⟩ located rest same
    obtain ⟨opening, others, rfl, opened, later⟩ := List.map_eq_cons_iff.mp same
    obtain ⟨name, others, rfl, labelled, later⟩ := List.map_eq_cons_iff.mp later
    obtain ⟨middle, read, closed⟩ := reads_closed
      (read_times_recognises (read_number_recognises "payoff") players) "end of outcome"
      numbers payoffs ⟨series, size⟩ others rest later
    rw [List.cons_append, readOutcome, expect_reads .opening "outcome" opening _ opened, ok_bind,
      List.cons_append, read_text_reads "outcome label" label name _ labelled, ok_bind]
    dsimp only
    rw [read, ok_bind]
    dsimp only
    rw [closed]
    rfl
  shaped := by
    rintro located ⟨label, payoffs⟩ rest read
    obtain ⟨afterOpening, opened, run⟩ := bind_eq_ok.mp read
    obtain ⟨⟨text, afterLabel⟩, labelled, run⟩ := bind_eq_ok.mp run
    obtain ⟨⟨values, afterPayoffs⟩, paid, run⟩ := bind_eq_ok.mp run
    obtain ⟨afterClosing, closed, finish⟩ := bind_eq_ok.mp run
    cases finish
    obtain ⟨opening, rfl, token⟩ := (expect_iff _ _ _ _).mp opened
    obtain ⟨name, rfl, content⟩ := (read_text_iff _ _ _ _).mp labelled
    obtain ⟨used, tokens, rfl, same, series, size⟩ := shaped_closed
      (read_times_recognises (read_number_recognises "payoff") players) _ _ _ _ _ paid closed
    refine ⟨opening :: name :: used, rfl, tokens, ?_, series, size⟩
    rw [List.map_cons, List.map_cons, token, content, same]

theorem read_outcomes_step (players : Nat) (read : List (String × List Rat)) (tokens rest : Tokens)
    (outcome : String × List Rat) (first : readOutcome players tokens = .ok (outcome, rest)) :
    readOutcomes players read tokens = readOutcomes players (outcome :: read) rest := by
  have goes : ¬ tokens.head?.map Located.token = some .closing := by
    obtain ⟨after, opened, -⟩ := bind_eq_ok.mp first
    obtain ⟨opening, rfl, token⟩ := (expect_iff _ _ _ _).mp opened
    rw [List.head?_cons, Option.map_some, token]
    decide
  rw [readOutcomes, if_neg goes]
  split
  · rename_i failure refused
    cases first.symm.trans refused
  · rename_i taken after run
    cases first.symm.trans run
    rfl

-- Outcomes already read come last first; the closing brace is left.
theorem read_outcomes_before (players : Nat) (tokens : List Token) (values : List (String × List Rat))
    (series : Series (Listing players) tokens values) (read : List (String × List Rat)) (located rest : Tokens)
    (closing : Located) (same : located.map Located.token = tokens) (closed : closing.token = .closing) :
    readOutcomes players read (located ++ closing :: rest) = .ok (read.reverse ++ values, closing :: rest) := by
  obtain ⟨parts, rfl, each⟩ := series
  induction each generalizing read located with
  | nil =>
      obtain rfl := List.map_eq_nil_iff.mp same
      have stops : (closing :: rest).head?.map Located.token = some .closing := congrArg some closed
      rw [List.nil_append, readOutcomes, if_pos stops, List.append_nil]
  | @cons part value parts values here _ ih =>
      obtain ⟨first, others, rfl, now, later⟩ := List.map_eq_append_iff.mp same
      have taken := (read_outcome_recognises players).reads part value here first (others ++ closing :: rest) now
      rw [List.append_assoc, read_outcomes_step players read _ _ value taken, ih (value :: read) others later,
        List.reverse_cons, List.append_assoc, List.singleton_append]

theorem read_outcomes_shaped (players : Nat) (read listed : List (String × List Rat)) (located rest : Tokens)
    (run : readOutcomes players read located = .ok (listed, rest)) :
    ∃ values used, listed = read.reverse ++ values ∧ located = used ++ rest ∧
      Series (Listing players) (used.map Located.token) values := by
  fun_induction readOutcomes players read located with
  | case1 read located =>
      cases run
      exact ⟨[], [], (List.append_nil _).symm, rfl, series_nil _⟩
  | case2 => cases run
  | case3 read located _ outcome after first ih =>
      obtain ⟨values, used, same, rfl, series⟩ := ih run
      obtain ⟨part, rfl, here⟩ := (read_outcome_recognises players).shaped located outcome _ first
      refine ⟨outcome :: values, part ++ used, ?_, (List.append_assoc _ _ _).symm, ?_⟩
      · rw [same, List.reverse_cons, List.append_assoc, List.singleton_append]
      · rw [List.map_append]
        exact series_cons (Listing players) _ _ outcome values here series

def Content.Worded (content : Content) : Prop :=
  ∀ listed ids, content = .outcomes listed ids → ∀ id ∈ ids, id < 2 ^ 64

theorem series_ids (outcomes : Nat) (tokens : List Token) (ids : List Nat) :
    Series (fun tokens id => Count tokens id ∧ id ≤ outcomes) tokens ids ↔
      Series Whole tokens ids ∧ (∀ id ∈ ids, id < 2 ^ 64) ∧ ∀ id ∈ ids, id ≤ outcomes := by
  rw [series_and Count (· ≤ outcomes), ← and_assoc]
  exact and_congr_left' (series_and Whole (· < 2 ^ 64) tokens ids)

theorem read_content_shaped (dims : Dimensions) (cells : Nat) (located rest : Tokens) (content : Content)
    (read : readContent dims cells located = .ok (content, rest)) :
    ∃ used, located = used ++ rest ∧ Body dims.length cells (used.map Located.token) content ∧ content.Worded := by
  unfold readContent at read
  split at read
  · obtain ⟨afterOpening, opened, run⟩ := bind_eq_ok.mp read
    obtain ⟨⟨listed, afterOutcomes⟩, outcomes, run⟩ := bind_eq_ok.mp run
    obtain ⟨afterClosing, closed, run⟩ := bind_eq_ok.mp run
    obtain ⟨⟨ids, after⟩, numbers, finish⟩ := bind_eq_ok.mp run
    cases finish
    obtain ⟨opening, rfl, token⟩ := (expect_iff _ _ _ _).mp opened
    obtain ⟨_, entries, rfl, rfl, each⟩ := read_outcomes_shaped _ _ _ _ _ outcomes
    obtain ⟨closing, rfl, last⟩ := (expect_iff _ _ _ _).mp closed
    obtain ⟨used, rfl, series, size⟩ := (read_times_recognises (read_id_recognises _) cells).shaped _ _ _ numbers
    obtain ⟨whole, words, known⟩ := (series_ids _ _ _).mp series
    refine ⟨opening :: (entries ++ closing :: used), by simp, ?_, ?_⟩
    · rw [List.map_cons, List.map_append, List.map_cons, token, last]
      exact .outcomes listed ids _ _ each whole known size
    · intro others numbers same
      cases same
      exact words
  · obtain ⟨⟨values, after⟩, numbers, finish⟩ := bind_eq_ok.mp read
    cases finish
    obtain ⟨used, rfl, series, size⟩ :=
      (read_times_recognises (read_number_recognises "payoff") (cells * dims.length)).shaped _ _ _ numbers
    exact ⟨used, rfl, .payoffs values _ series size, nofun⟩

-- A list of payoffs may be empty, so that only the end of the text tells it from a list of outcomes.
theorem read_content_whole (dims : Dimensions) (cells : Nat) (located : Tokens) (content : Content)
    (body : Body dims.length cells (located.map Located.token) content) (worded : content.Worded) :
    readContent dims cells located = .ok (content, []) := by
  generalize same : located.map Located.token = tokens at body
  cases body with
  | outcomes listed ids entries numbers each cellByCell known size =>
      obtain ⟨opening, others, rfl, opened, later⟩ := List.map_eq_cons_iff.mp same
      obtain ⟨outcomes, others, rfl, table, later⟩ := List.map_eq_append_iff.mp later
      obtain ⟨closing, others, rfl, closed, cellTokens⟩ := List.map_eq_cons_iff.mp later
      have series := (series_ids listed.length numbers ids).mpr ⟨cellByCell, worded listed ids rfl, known⟩
      have reads := (read_times_recognises (read_id_recognises listed.length) cells).reads numbers ids
        ⟨series, size⟩ others [] cellTokens
      rw [List.append_nil] at reads
      have all := read_outcomes_before dims.length entries listed each [] outcomes others closing table closed
      rw [readContent, if_pos ((next_is_opening_iff (opening :: _)).mpr (congrArg some opened)),
        expect_reads .opening "outcome block" opening _ opened, ok_bind, all, ok_bind]
      dsimp only
      rw [expect_reads .closing "end of outcome block" closing _ closed, ok_bind, List.reverse_nil,
        List.nil_append, reads]
      rfl
  | payoffs values _ each size =>
      have numbers : ¬ nextIsOpening located = true := by
        have first := amounts_do_not_open Amount tokens [] values amount_leads each nofun
        rw [next_is_opening_iff, same, ← List.append_nil tokens]
        exact first
      have reads := (read_times_recognises (read_number_recognises "payoff") (cells * dims.length)).reads tokens
        values ⟨each, size⟩ located [] same
      rw [List.append_nil] at reads
      rw [readContent, if_neg numbers, reads]
      rfl

/-! Whole files. -/

-- The induction is on the players; the product so far is that over the leading ones.
theorem product_from_iff (product cells : Nat) (dims : Dimensions) (fits : product < 2 ^ 64) :
    dims.productFrom? product = some cells ↔
      (∀ leading ≤ dims.length, product * Dimensions.count (dims.take leading) < 2 ^ 64) ∧
        cells = product * dims.count := by
  induction dims generalizing product with
  | nil =>
      rw [Dimensions.productFrom?, Option.some.injEq, Dimensions.count, Nat.mul_one, eq_comm]
      refine (and_iff_right fun leading _ => ?_).symm
      rw [List.take_nil, Dimensions.count, Nat.mul_one]
      exact fits
  | cons d dims ih =>
      have step : ∀ leading, product * Dimensions.count ((d :: dims).take (leading + 1)) =
          product * d * Dimensions.count (dims.take leading) := fun leading => (Nat.mul_assoc _ _ _).symm
      rw [Dimensions.productFrom?, Dimensions.count, ← Nat.mul_assoc]
      by_cases word : product * d < 2 ^ 64
      · have held : Word.fits (product * d) = true := decide_eq_true word
        rw [if_pos held, ih (product * d) word]
        refine and_congr_left' ⟨fun later leading inside => ?_, fun all leading inside => ?_⟩
        · cases leading with
          | zero => exact (Nat.mul_one product).symm ▸ fits
          | succ leading => exact step leading ▸ later leading (Nat.le_of_succ_le_succ inside)
        · exact step leading ▸ all (leading + 1) (Nat.succ_le_succ inside)
      · have large : ¬ Word.fits (product * d) = true := fun fits => word (of_decide_eq_true fits)
        rw [if_neg large]
        constructor
        · intro found
          cases found
        · rintro ⟨all, -⟩
          have second := all 1 (Nat.succ_le_succ (Nat.zero_le _))
          rw [step 0, List.take_zero, Dimensions.count, Nat.mul_one] at second
          exact absurd second word

theorem product_iff (dims : Dimensions) (cells : Nat) : dims.product? = some cells ↔
    (∀ leading ≤ dims.length, Dimensions.count (dims.take leading) < 2 ^ 64) ∧ cells = dims.count := by
  have from_one := product_from_iff 1 cells dims (by decide)
  simp only [Nat.one_mul] at from_one
  exact from_one

theorem admit_cells_succeeds (dims : Dimensions) (addressable : dims.count?.isSome)
    (small : dims.count ≤ maxCells) : admitCells dims = .ok dims.count := by
  obtain ⟨-, product⟩ := dims.count_addressable addressable
  have held : ¬ dims.count?.isNone := by simpa [Option.isSome_iff_ne_none] using addressable
  rw [admitCells, product]
  dsimp only
  rw [if_neg (Nat.not_lt.mpr small), if_neg held]

theorem admitted_counted (dims : Dimensions) (admitted : Admitted dims)
    (addressable : ∀ d ∈ dims, Word.addressable d Dimensions.strategyBytes) : dims.count?.isSome := by
  have found := (product_iff dims dims.count).mpr ⟨admitted.products, rfl⟩
  have cells : Word.addressable dims.count Dimensions.cellBytes := by
    have small := admitted.cells
    refine decide_eq_true (?_ : dims.count * 16 < 2 ^ 63)
    omega
  exact dims.count_is_some_iff.mpr ⟨dims.count, (dims.allotted_iff _).mpr ⟨addressable, found, cells⟩⟩

theorem admit_cells_iff (dims : Dimensions) (cells : Nat) : admitCells dims = .ok cells ↔
    Admitted dims ∧ (∀ d ∈ dims, Word.addressable d Dimensions.strategyBytes) ∧ cells = dims.count := by
  constructor
  · intro run
    unfold admitCells at run
    split at run
    · cases run
    · rename_i total found
      split_ifs at run with large lost
      cases run
      obtain ⟨products, same⟩ := (product_iff dims cells).mp found
      have counted : dims.count?.isSome := by simpa [Option.isSome_iff_ne_none] using lost
      exact ⟨⟨products, same ▸ Nat.not_lt.mp large⟩, (dims.count_addressable counted).1, same⟩
  · rintro ⟨admitted, addressable, rfl⟩
    exact admit_cells_succeeds dims (admitted_counted dims admitted addressable) admitted.cells

theorem admit_cells_unaddressable (dims : Dimensions) (admitted : Admitted dims)
    (lost : ¬ ∀ d ∈ dims, Word.addressable d Dimensions.strategyBytes) : admitCells dims = .error .unaddressable := by
  have uncounted : dims.count?.isNone :=
    Option.isNone_iff_eq_none.mpr (Option.not_isSome_iff_eq_none.mp fun counted => lost (dims.count_addressable counted).1)
  have small : ¬ maxCells < dims.count := Nat.not_lt.mpr admitted.cells
  rw [admitCells, (product_iff dims dims.count).mpr ⟨admitted.products, rfl⟩]
  dsimp only
  rw [if_neg small, if_pos uncounted]

theorem admit_cells_too_large (dims : Dimensions) (refused : ¬ Admitted dims) :
    admitCells dims = .error (.tooLarge dims maxCells) := by
  rw [admitCells]
  cases product : dims.product? with
  | none => rfl
  | some cells =>
      obtain ⟨products, rfl⟩ := (product_iff dims cells).mp product
      have large : maxCells < dims.count := Nat.not_le.mp fun small => refused ⟨products, small⟩
      exact if_pos large

theorem zip_strategies (names : List String) (strategies : List (List String))
    (size : strategies.length = names.length) :
    (List.zipWith Player.mk names strategies).map Player.strategies = strategies := by
  rw [← List.map_uncurry_zip_eq_zipWith, List.map_map]
  exact List.map_snd_zip (Nat.le_of_eq size)

theorem zip_dimensions (names : List String) (strategies : List (List String))
    (size : strategies.length = names.length) :
    (List.zipWith Player.mk names strategies).map (fun player => player.strategies.length) =
      strategies.map List.length := by
  rw [← congrArg (List.map List.length) (zip_strategies names strategies size), List.map_map]
  rfl

theorem block_size (players : Nat) (tokens : List Token) (names : List (List String))
    (block : StrategyBlock players tokens names) : names.length = players := by
  cases block with
  | named names lists each size => exact size
  | counted counts numbers each size => exact (List.length_map _).trans size

-- A comment is not taken from the body.
theorem body_starts (players cells : Nat) (tokens : List Token) (content : Content)
    (body : Body players cells tokens content) (text : String) : tokens.head? ≠ some (.text text) := by
  cases body with
  | outcomes => exact nofun
  | payoffs values _ each size =>
      rcases series_head Amount Leads amount_leads _ _ each with ⟨none, -⟩ |
        ⟨first, later, rfl, rfl | ⟨number, rfl⟩⟩
      · rw [none]
        exact nofun
      · exact nofun
      · exact nofun

-- What follows the comment: the cells, which are counted first, and the end of the text.
def readBody (description : Description) (tokens : Tokens) : Except ReadError Description := do
  let cells ← admitCells description.dimensions
  let (content, rest) ← readContent description.dimensions cells tokens
  match rest with
  | [] => .ok { description with content }
  | found :: _ => unexpected "end of input" found

-- Each reader gives its own part of the sentence.
theorem read_description_shaped (located : Tokens) (description : Description)
    (read : readDescription located = .ok description) :
    Sentence (located.map Located.token) description ∧ description.Held := by
  obtain ⟨afterHeader, header, run⟩ := bind_eq_ok.mp read
  obtain ⟨⟨title, afterTitle⟩, titled, run⟩ := bind_eq_ok.mp run
  obtain ⟨⟨names, afterNames⟩, listed, run⟩ := bind_eq_ok.mp run
  obtain ⟨⟨strategies, afterBlock⟩, chosen, run⟩ := bind_eq_ok.mp run
  dsimp only at run
  generalize noted : readComment afterBlock = remark at run
  obtain ⟨comment, afterNote⟩ := remark
  obtain ⟨cells, admits, run⟩ := bind_eq_ok.mp run
  obtain ⟨⟨content, rest⟩, stated, finish⟩ := bind_eq_ok.mp run
  obtain ⟨head, field, rfl, start, kind⟩ := (read_header_iff _ _).mp header
  obtain ⟨name, rfl, text⟩ := (read_text_iff _ _ _ _).mp titled
  obtain ⟨list, rfl, players⟩ := (read_text_list_recognises _).shaped _ _ _ listed
  obtain ⟨block, rfl, plays⟩ := read_strategies_shaped _ _ _ _ chosen
  obtain ⟨note, rfl, remark⟩ := read_comment_shaped _ _ _ noted
  obtain ⟨admitted, addressable, rfl⟩ := (admit_cells_iff _ _).mp admits
  obtain ⟨body, rfl, states, worded⟩ := read_content_shaped _ _ _ _ _ stated
  dsimp only at finish
  split at finish
  · cases finish
    have size := block_size _ _ _ plays
    rw [names_of_dimensions strategies] at admitted addressable states
    rw [List.length_map, size] at states
    have sentence := Sentence.file field title comment names _ content _ _ _ _ kind players plays remark admitted states
    refine ⟨?_, ⟨?_, worded⟩⟩
    · simpa [start, text] using sentence
    · rw [Description.dimensions, zip_dimensions names strategies.names size]
      exact addressable
  · cases finish

-- What follows the strategies.
def readNoted (title : String) (names : List String) (strategies : Strategies) (tokens : Tokens) :
    Except ReadError Description := do
  let (comment, rest) := readComment tokens
  let cells ← admitCells strategies.dimensions
  let (content, rest) ← readContent strategies.dimensions cells rest
  match rest with
  | [] => .ok { title, comment, players := List.zipWith Player.mk names strategies.names, content }
  | found :: _ => unexpected "end of input" found

-- Header, title, players and strategies are read whatever follows them.
theorem read_description_start (located : Tokens) (field title : String) (names : List String)
    (strategies : List (List String)) (list block after : List Token) (kind : field = "R" ∨ field = "D")
    (players : Names list names) (plays : StrategyBlock names.length block strategies)
    (same : located.map Located.token =
      [.word "NFG", .number 1, .word field, .text title] ++ list ++ block ++ after) :
    ∃ (choice : Strategies) (rest : Tokens), choice.names = strategies ∧ rest.map Located.token = after ∧
      readDescription located = readNoted title names choice rest := by
  obtain ⟨upToBlock, rest, rfl, blocked, rfl⟩ := List.map_eq_append_iff.mp same
  obtain ⟨upToList, block, rfl, listed, rfl⟩ := List.map_eq_append_iff.mp blocked
  obtain ⟨start, list, rfl, started, rfl⟩ := List.map_eq_append_iff.mp listed
  obtain ⟨magic, others, rfl, word, later⟩ := List.map_eq_cons_iff.mp started
  obtain ⟨version, others, rfl, one, later⟩ := List.map_eq_cons_iff.mp later
  obtain ⟨letter, others, rfl, real, later⟩ := List.map_eq_cons_iff.mp later
  obtain ⟨name, rfl, text⟩ := List.map_eq_singleton_iff.mp later
  obtain ⟨choice, rfl, reads⟩ := read_strategies_block _ _ _ plays
  have header : ∀ rest, readHeader (magic :: version :: letter :: rest) = .ok rest := fun rest =>
    (read_header_iff _ _).mpr ⟨[magic, version, letter], field, rfl, by simp [word, one, real], kind⟩
  refine ⟨choice, rest, rfl, rfl, ?_⟩
  simp only [List.cons_append, List.append_assoc, List.nil_append]
  rw [readDescription, header, ok_bind, read_text_reads "title" title name _ text, ok_bind]
  dsimp only
  rw [(read_text_list_recognises "player names").reads _ names players list _ rfl, ok_bind]
  dsimp only
  rw [reads block _ rfl, ok_bind]
  rfl

-- Up to the comment a sentence is read without fail.
theorem read_description_head (located : Tokens) (description : Description)
    (sentence : Sentence (located.map Located.token) description) : ∃ body : Tokens,
      Admitted description.dimensions ∧
      Body description.dimensions.length description.dimensions.count (body.map Located.token) description.content ∧
      readDescription located = readBody description body := by
  generalize same : located.map Located.token = tokens at sentence
  cases sentence with
  | file field title comment names strategies content list block note body kind players plays remark admitted states =>
      rw [List.append_assoc _ note body] at same
      obtain ⟨choice, rest, rfl, noted, run⟩ :=
        read_description_start located field title names strategies list block (note ++ body) kind players plays same
      obtain ⟨note, body, rfl, rfl, rfl⟩ := List.map_eq_append_iff.mp noted
      have size := block_size _ _ _ plays
      have commented := read_comment_before note comment body remark (body_starts _ _ _ _ states)
      have dims : Description.dimensions ⟨title, comment, List.zipWith Player.mk names choice.names, content⟩ =
          choice.dimensions := by
        rw [Description.dimensions, zip_dimensions names choice.names size, names_of_dimensions]
      refine ⟨body, ?_, ?_, ?_⟩
      · rw [dims, names_of_dimensions]
        exact admitted
      · rw [dims, names_of_dimensions, List.length_map, size]
        exact states
      · rw [run, readNoted, commented, readBody, dims]

theorem read_description_iff (located : Tokens) (description : Description) :
    readDescription located = .ok description ↔ Sentence (located.map Located.token) description ∧ description.Held := by
  constructor
  · exact read_description_shaped located description
  · rintro ⟨sentence, held⟩
    obtain ⟨body, admitted, states, run⟩ := read_description_head located description sentence
    have cells := (admit_cells_iff description.dimensions _).mpr ⟨admitted, held.strategies, rfl⟩
    rw [run, readBody, cells, ok_bind, read_content_whole _ _ body description.content states held.ids]
    rfl

end NormalForm.File
