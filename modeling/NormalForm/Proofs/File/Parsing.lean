import Mathlib.Data.List.Forall2
import NormalForm.Proofs.File.Grammar

/-!
Readers of the parts of a file take the tokens of their part and nothing else. Each reader recognises a
shape: it reads the tokens of every value of that shape, at whatever lines they stand and whatever follows
them, and what it reads has the shape.
-/

set_option autoImplicit false

namespace NormalForm.File

def Reads {α : Type} (item : Tokens → Except ReadError (α × Tokens)) (tokens : List Token) (value : α) : Prop :=
  ∀ located rest : Tokens, located.map Located.token = tokens → item (located ++ rest) = .ok (value, rest)

structure Recognises {α : Type} (item : Tokens → Except ReadError (α × Tokens))
    (Shape : List Token → α → Prop) : Prop where
  reads : ∀ tokens value, Shape tokens value → Reads item tokens value
  shaped : ∀ located value rest, item located = .ok (value, rest) →
    ∃ used, located = used ++ rest ∧ Shape (used.map Located.token) value

/-! Single tokens. -/

theorem next_iff (expected : String) (tokens rest : Tokens) (found : Located) :
    next expected tokens = .ok (found, rest) ↔ tokens = found :: rest := by
  cases tokens with
  | nil => exact ⟨nofun, nofun⟩
  | cons first others => simp [next]

theorem expect_reads (token : Token) (expected : String) (found : Located) (rest : Tokens)
    (same : found.token = token) : expect token expected (found :: rest) = .ok rest := by
  rw [expect, next, ok_bind]
  exact if_pos same

theorem expect_iff (token : Token) (expected : String) (tokens rest : Tokens) :
    expect token expected tokens = .ok rest ↔ ∃ found, tokens = found :: rest ∧ found.token = token := by
  constructor
  · intro run
    obtain ⟨⟨found, after⟩, taken, finish⟩ := bind_eq_ok.mp run
    dsimp only at finish
    split at finish
    · rename_i same
      cases finish
      exact ⟨found, (next_iff expected tokens rest found).mp taken, same⟩
    · cases finish
  · rintro ⟨found, rfl, same⟩
    exact expect_reads token expected found rest same

theorem read_text_reads (expected content : String) (found : Located) (rest : Tokens)
    (same : found.token = .text content) : readText expected (found :: rest) = .ok (content, rest) := by
  rw [readText, next, ok_bind]
  simp only [same]

theorem read_text_iff (expected content : String) (tokens rest : Tokens) :
    readText expected tokens = .ok (content, rest) ↔
      ∃ found, tokens = found :: rest ∧ found.token = .text content := by
  constructor
  · intro run
    obtain ⟨⟨found, after⟩, taken, finish⟩ := bind_eq_ok.mp run
    dsimp only at finish
    split at finish
    · rename_i text same
      cases finish
      exact ⟨found, (next_iff expected tokens rest found).mp taken, same⟩
    · cases finish
  · rintro ⟨found, rfl, same⟩
    exact read_text_reads expected content found rest same

theorem read_number_reads (expected : String) (value : Rat) :
    Reads (readNumber expected) [.number value] value := by
  intro located rest same
  obtain ⟨found, rfl, token⟩ := List.map_eq_singleton_iff.mp same
  have kept : skipCommas (found :: rest) = found :: rest := by
    rw [skipCommas, List.dropWhile_cons, token]
    rfl
  rw [List.singleton_append, readNumber, kept, next, ok_bind]
  simp only [token]

theorem read_number_comma (expected : String) (comma : Located) (tokens : Tokens) (token : comma.token = .comma) :
    readNumber expected (comma :: tokens) = readNumber expected tokens := by
  have skipped : skipCommas (comma :: tokens) = skipCommas tokens := by
    rw [skipCommas, List.dropWhile_cons, token]
    rfl
  rw [readNumber, skipped, readNumber]

theorem read_number_recognises (expected : String) : Recognises (readNumber expected) Amount where
  reads := by
    rintro tokens value ⟨commas, rfl⟩
    induction commas with
    | zero => exact read_number_reads expected value
    | succ commas ih =>
        intro located rest same
        obtain ⟨comma, others, rfl, token, later⟩ := List.map_eq_cons_iff.mp same
        rw [List.cons_append, read_number_comma expected comma _ token]
        exact ih others rest later
  shaped := by
    intro located value rest run
    induction located with
    | nil => cases run
    | cons first others ih =>
        by_cases comma : first.token = .comma
        · rw [read_number_comma expected first others comma] at run
          obtain ⟨used, split, commas, shape⟩ := ih run
          refine ⟨first :: used, by rw [split, List.cons_append], commas + 1, ?_⟩
          rw [List.map_cons, shape, comma, List.replicate_succ, List.cons_append]
        · have kept : skipCommas (first :: others) = first :: others := by
            rw [skipCommas, List.dropWhile_cons_of_neg (by simpa using comma)]
          rw [readNumber, kept, next, ok_bind] at run
          dsimp only at run
          split at run
          · rename_i number same
            cases run
            exact ⟨[first], rfl, 0, by rw [List.map_singleton, same]; rfl⟩
          · cases run

-- Whole numbers are counts as far as words go.
theorem read_count_recognises (expected : String) : Recognises (readCount expected) Count where
  reads := by
    rintro tokens count ⟨whole, fits⟩ located rest same
    have shape : (count : Rat).den = 1 ∧ 0 ≤ (count : Rat).num ∧ Word.fits (count : Rat).num.toNat :=
      ⟨Rat.den_natCast count, Int.natCast_nonneg count, decide_eq_true fits⟩
    rw [readCount, (read_number_recognises expected).reads tokens count whole located rest same, ok_bind]
    exact if_pos shape
  shaped := by
    intro located count rest run
    obtain ⟨⟨value, after⟩, number, finish⟩ := bind_eq_ok.mp run
    obtain ⟨used, split, amount⟩ := (read_number_recognises expected).shaped located value after number
    dsimp only at finish
    split at finish
    · rename_i whole
      cases finish
      have same : ((value.num.toNat : Nat) : Rat) = value := by
        rw [← Int.cast_natCast, Int.toNat_of_nonneg whole.2.1]
        exact Rat.coe_int_num_of_den_eq_one whole.1
      refine ⟨used, split, ?_, of_decide_eq_true whole.2.2⟩
      rw [Whole, same]
      exact amount
    · cases finish

theorem read_id_recognises (outcomes : Nat) :
    Recognises (readId outcomes) fun tokens id => Count tokens id ∧ id ≤ outcomes where
  reads := by
    rintro tokens id ⟨count, known⟩ located rest same
    rw [readId, (read_count_recognises "outcome id").reads tokens id count located rest same, ok_bind]
    exact if_pos known
  shaped := by
    intro located id rest run
    obtain ⟨⟨number, after⟩, counted, finish⟩ := bind_eq_ok.mp run
    obtain ⟨used, split, count⟩ := (read_count_recognises "outcome id").shaped located number after counted
    dsimp only at finish
    split at finish
    · rename_i known
      cases finish
      exact ⟨used, split, count, known⟩
    · cases finish

/-! Lists of strings. -/

theorem read_texts_reads (expected : String) (texts : List String) :
    Reads (readTexts expected) (texts.map Token.text ++ [.closing]) texts := by
  induction texts with
  | nil =>
      intro located rest same
      obtain ⟨found, rfl, token⟩ := List.map_eq_singleton_iff.mp same
      simp only [List.singleton_append, readTexts, token]
  | cons text texts ih =>
      intro located rest same
      obtain ⟨found, others, rfl, token, later⟩ := List.map_eq_cons_iff.mp same
      simp only [List.cons_append, readTexts, token, ih others rest later, ok_bind]

theorem read_texts_recognises (expected : String) :
    Recognises (readTexts expected) fun tokens texts => tokens = texts.map Token.text ++ [.closing] where
  reads := by
    rintro tokens texts rfl
    exact read_texts_reads expected texts
  shaped := by
    intro located texts rest run
    induction located generalizing texts with
    | nil => cases run
    | cons found others ih =>
        rw [readTexts] at run
        split at run
        · rename_i closed
          cases run
          exact ⟨[found], rfl, congrArg List.singleton closed⟩
        · rename_i content text
          obtain ⟨⟨contents, after⟩, taken, finish⟩ := bind_eq_ok.mp run
          cases finish
          obtain ⟨used, split, shape⟩ := ih contents taken
          refine ⟨found :: used, by rw [split, List.cons_append], ?_⟩
          rw [List.map_cons, shape, text]
          rfl
        · cases run

theorem read_text_list_recognises (expected : String) : Recognises (readTextList expected) Names where
  reads := by
    rintro tokens texts rfl located rest same
    obtain ⟨found, others, rfl, token, later⟩ := List.map_eq_cons_iff.mp same
    rw [List.cons_append, readTextList, expect_reads .opening expected found _ token, ok_bind]
    exact read_texts_reads expected texts others rest later
  shaped := by
    intro located texts rest run
    obtain ⟨after, opened, finish⟩ := bind_eq_ok.mp run
    obtain ⟨opening, rfl, token⟩ := (expect_iff .opening expected located after).mp opened
    obtain ⟨used, split, shape⟩ := (read_texts_recognises expected).shaped after texts rest finish
    refine ⟨opening :: used, by rw [split, List.cons_append], ?_⟩
    rw [List.map_cons, shape, token]
    rfl

/-! Series. -/

theorem series_nil {β : Type} (Item : List Token → β → Prop) : Series Item [] [] := ⟨[], rfl, .nil⟩

theorem series_cons {β : Type} (Item : List Token → β → Prop) (part tokens : List Token) (value : β)
    (values : List β) (here : Item part value) (later : Series Item tokens values) :
    Series Item (part ++ tokens) (value :: values) := by
  obtain ⟨parts, rfl, each⟩ := later
  exact ⟨part :: parts, rfl, .cons here each⟩

theorem series_each {β : Type} (Item : List Token → β → Prop) (tokens : List Token) (values : List β)
    (series : Series Item tokens values) : ∀ value ∈ values, ∃ part, Item part value := by
  obtain ⟨parts, rfl, each⟩ := series
  induction each with
  | nil => nofun
  | cons here _ ih => exact List.forall_mem_cons.mpr ⟨⟨_, here⟩, ih⟩

theorem series_and {β : Type} (Item : List Token → β → Prop) (Known : β → Prop) (tokens : List Token)
    (values : List β) : Series (fun tokens value => Item tokens value ∧ Known value) tokens values ↔
      Series Item tokens values ∧ ∀ value ∈ values, Known value := by
  constructor
  · rintro ⟨parts, rfl, each⟩
    refine ⟨⟨parts, rfl, each.imp fun _ _ item => item.1⟩, ?_⟩
    induction each with
    | nil => nofun
    | cons here _ ih => exact List.forall_mem_cons.mpr ⟨here.2, ih⟩
  · rintro ⟨⟨parts, rfl, each⟩, known⟩
    refine ⟨parts, rfl, ?_⟩
    induction each with
    | nil => exact .nil
    | cons here _ ih =>
        obtain ⟨first, others⟩ := List.forall_mem_cons.mp known
        exact .cons ⟨here, first⟩ (ih others)

theorem next_is_opening_iff (tokens : Tokens) :
    nextIsOpening tokens = true ↔ (tokens.map Located.token).head? = some .opening := by
  cases tokens with
  | nil => simp [nextIsOpening]
  | cons found rest => simp [nextIsOpening]

-- The first token of a series is that of its first item.
theorem series_head {β : Type} (Item : List Token → β → Prop) (First : Token → Prop)
    (starts : ∀ tokens value, Item tokens value → ∃ first later, tokens = first :: later ∧ First first)
    (tokens : List Token) (values : List β) (series : Series Item tokens values) :
    (tokens = [] ∧ values = []) ∨ ∃ first later, tokens = first :: later ∧ First first := by
  obtain ⟨parts, rfl, each⟩ := series
  cases each with
  | nil => exact .inl ⟨rfl, rfl⟩
  | @cons part value parts values here _ =>
      obtain ⟨first, later, rfl, known⟩ := starts part value here
      exact .inr ⟨first, later ++ parts.flatten, rfl, known⟩

-- What a number starts with.
def Leads (first : Token) : Prop := first = .comma ∨ ∃ value, first = .number value

theorem amount_leads (tokens : List Token) (value : Rat) (amount : Amount tokens value) :
    ∃ first later, tokens = first :: later ∧ Leads first := by
  obtain ⟨commas, rfl⟩ := amount
  cases commas with
  | zero => exact ⟨.number value, [], rfl, .inr ⟨value, rfl⟩⟩
  | succ commas => exact ⟨.comma, List.replicate commas .comma ++ [.number value], rfl, .inl rfl⟩

-- A series of numbers does not start with a brace, unless it is empty and a brace follows.
theorem amounts_do_not_open {β : Type} (Item : List Token → β → Prop) (tokens rest : List Token) (values : List β)
    (leads : ∀ tokens value, Item tokens value → ∃ first later, tokens = first :: later ∧ Leads first)
    (series : Series Item tokens values) (stops : rest.head? ≠ some .opening) :
    (tokens ++ rest).head? ≠ some .opening := by
  rcases series_head Item Leads leads tokens values series with ⟨rfl, -⟩ |
    ⟨first, later, rfl, rfl | ⟨number, rfl⟩⟩
  · exact stops
  · exact nofun
  · exact nofun

/-! A fixed number of items. -/

-- Each item has its own tokens, and those already read come last first.
theorem read_after_reads {α : Type} (item : Tokens → Except ReadError (α × Tokens)) (parts : List (List Token))
    (values read : List α) (each : List.Forall₂ (Reads item) parts values) :
    Reads (readAfter item read values.length) parts.flatten (read.reverse ++ values) := by
  induction each generalizing read with
  | nil =>
      intro located rest same
      rw [List.map_eq_nil_iff.mp same, List.append_nil]
      rfl
  | @cons part value parts values here _ ih =>
      intro located rest same
      obtain ⟨first, others, rfl, now, later⟩ := List.map_eq_append_iff.mp same
      rw [List.append_assoc, List.length_cons, readAfter, here first (others ++ rest) now, ok_bind]
      have remaining := ih (value :: read) others rest later
      rw [List.reverse_cons, List.append_assoc, List.singleton_append] at remaining
      exact remaining

section

variable {α : Type} {item : Tokens → Except ReadError (α × Tokens)} {Shape : List Token → α → Prop}

-- Items already read come last first.
theorem read_after_shaped (law : Recognises item Shape) (count : Nat) (read values : List α) (located rest : Tokens)
    (run : readAfter item read count located = .ok (values, rest)) :
    ∃ later used, values = read.reverse ++ later ∧ later.length = count ∧ located = used ++ rest ∧
      Series Shape (used.map Located.token) later := by
  induction count generalizing read located with
  | zero =>
      cases run
      exact ⟨[], [], (List.append_nil _).symm, rfl, rfl, series_nil Shape⟩
  | succ count ih =>
      obtain ⟨⟨value, after⟩, first, finish⟩ := bind_eq_ok.mp run
      obtain ⟨part, rfl, here⟩ := law.shaped located value after first
      obtain ⟨later, used, same, length, rfl, series⟩ := ih (value :: read) after finish
      refine ⟨value :: later, part ++ used, ?_, congrArg Nat.succ length, (List.append_assoc _ _ _).symm, ?_⟩
      · rw [same, List.reverse_cons, List.append_assoc, List.singleton_append]
      · rw [List.map_append]
        exact series_cons Shape _ _ value later here series

theorem read_times_recognises (law : Recognises item Shape) (count : Nat) :
    Recognises (readTimes count item) fun tokens values => Series Shape tokens values ∧ values.length = count where
  reads := by
    rintro tokens values ⟨⟨parts, rfl, each⟩, rfl⟩
    exact read_after_reads item parts values [] (each.imp law.reads)
  shaped := by
    intro located values rest run
    obtain ⟨later, used, rfl, length, split, series⟩ := read_after_shaped law count [] values located rest run
    exact ⟨used, split, series, length⟩

/-! Parts that end with a closing brace. -/

theorem reads_closed (law : Recognises item Shape) (expected : String) (tokens : List Token) (value : α)
    (shape : Shape tokens value) (located rest : Tokens) (same : located.map Located.token = tokens ++ [.closing]) :
    ∃ middle, item (located ++ rest) = .ok (value, middle) ∧ expect .closing expected middle = .ok rest := by
  obtain ⟨used, last, rfl, here, closed⟩ := List.map_eq_append_iff.mp same
  obtain ⟨closing, rfl, token⟩ := List.map_eq_singleton_iff.mp closed
  refine ⟨closing :: rest, ?_, expect_reads .closing expected closing rest token⟩
  rw [List.append_assoc]
  exact law.reads tokens value shape used (closing :: rest) here

theorem shaped_closed (law : Recognises item Shape) (expected : String) (located middle rest : Tokens) (value : α)
    (read : item located = .ok (value, middle)) (closed : expect .closing expected middle = .ok rest) :
    ∃ used tokens, located = used ++ rest ∧ used.map Located.token = tokens ++ [.closing] ∧ Shape tokens value := by
  obtain ⟨used, rfl, shape⟩ := law.shaped located value middle read
  obtain ⟨closing, rfl, token⟩ := (expect_iff _ _ _ _).mp closed
  refine ⟨used ++ [closing], used.map Located.token, by simp, ?_, shape⟩
  rw [List.map_append, List.map_singleton, token]

end

/-! The head of a file. -/

theorem read_header_iff (tokens rest : Tokens) : readHeader tokens = .ok rest ↔ ∃ used field,
    tokens = used ++ rest ∧ used.map Located.token = [.word "NFG", .number 1, .word field] ∧
      (field = "R" ∨ field = "D") := by
  constructor
  · intro run
    obtain ⟨⟨magic, _⟩, first, run⟩ := bind_eq_ok.mp run
    obtain ⟨⟨version, _⟩, second, run⟩ := bind_eq_ok.mp run
    obtain ⟨⟨field, after⟩, third, finish⟩ := bind_eq_ok.mp run
    obtain rfl := (next_iff _ _ _ _).mp first
    obtain rfl := (next_iff _ _ _ _).mp second
    obtain rfl := (next_iff _ _ _ _).mp third
    dsimp only at finish
    split at finish
    · rename_i known
      obtain ⟨word, one, kind⟩ := known
      cases finish
      rcases kind with real | decimal
      · exact ⟨[magic, version, field], "R", rfl, by simp [word, one, real], .inl rfl⟩
      · exact ⟨[magic, version, field], "D", rfl, by simp [word, one, decimal], .inr rfl⟩
    · cases finish
  · rintro ⟨used, field, rfl, tokens, kind⟩
    obtain ⟨magic, others, rfl, word, later⟩ := List.map_eq_cons_iff.mp tokens
    obtain ⟨version, others, rfl, one, later⟩ := List.map_eq_cons_iff.mp later
    obtain ⟨letter, rfl, same⟩ := List.map_eq_singleton_iff.mp later
    refine if_pos ⟨word, one, ?_⟩
    rw [same]
    exact kind.imp (congrArg Token.word) (congrArg Token.word)

theorem names_of_dimensions (strategies : Strategies) :
    strategies.dimensions = strategies.names.map List.length := by
  cases strategies with
  | named names => rfl
  | counted counts =>
      rw [Strategies.names, List.map_map]
      exact (List.map_id counts).symm.trans (List.map_congr_left fun count _ => by simp [numberNames])

theorem read_strategies_shaped (players : Nat) (located rest : Tokens) (strategies : Strategies)
    (read : readStrategies players located = .ok (strategies, rest)) :
    ∃ used, located = used ++ rest ∧ StrategyBlock players (used.map Located.token) strategies.names := by
  obtain ⟨after, opened, run⟩ := bind_eq_ok.mp read
  obtain ⟨opening, rfl, token⟩ := (expect_iff _ _ _ _).mp opened
  split at run
  · obtain ⟨⟨names, afterNames⟩, listed, run⟩ := bind_eq_ok.mp run
    obtain ⟨afterClosing, closed, finish⟩ := bind_eq_ok.mp run
    cases finish
    obtain ⟨used, tokens, rfl, same, series, size⟩ := shaped_closed
      (read_times_recognises (read_text_list_recognises "strategy names") players) _ _ _ _ _ listed closed
    refine ⟨opening :: used, rfl, ?_⟩
    rw [List.map_cons, token, same]
    exact .named names tokens series size
  · obtain ⟨⟨counts, afterCounts⟩, listed, run⟩ := bind_eq_ok.mp run
    obtain ⟨afterClosing, closed, finish⟩ := bind_eq_ok.mp run
    cases finish
    obtain ⟨used, tokens, rfl, same, series, size⟩ := shaped_closed
      (read_times_recognises (read_count_recognises "strategy count") players) _ _ _ _ _ listed closed
    refine ⟨opening :: used, rfl, ?_⟩
    rw [List.map_cons, token, same]
    exact .counted counts tokens series size

theorem read_counted_block (counts : List Nat) (numbers : List Token) (series : Series Count numbers counts) :
    Reads (readStrategies counts.length) (.opening :: (numbers ++ [.closing])) (.counted counts) := by
  intro located rest same
  obtain ⟨opening, others, rfl, opened, later⟩ := List.map_eq_cons_iff.mp same
  have numbered : ¬ nextIsOpening (others ++ rest) = true := by
    rw [next_is_opening_iff, List.map_append, later, List.append_assoc]
    exact amounts_do_not_open Count numbers _ counts (fun tokens count shape => amount_leads tokens count shape.1)
      series nofun
  obtain ⟨middle, read, closed⟩ := reads_closed
    (read_times_recognises (read_count_recognises "strategy count") counts.length) "end of strategy block"
    numbers counts ⟨series, rfl⟩ others rest later
  rw [List.cons_append, readStrategies, expect_reads .opening "strategy block" opening _ opened, ok_bind,
    if_neg numbered, read, ok_bind]
  dsimp only
  rw [closed]
  rfl

theorem read_named_block (names : List (List String)) (lists : List Token) (series : Series Names lists names)
    (some : names ≠ []) : Reads (readStrategies names.length) (.opening :: (lists ++ [.closing])) (.named names) := by
  intro located rest same
  obtain ⟨opening, others, rfl, opened, later⟩ := List.map_eq_cons_iff.mp same
  have named : nextIsOpening (others ++ rest) = true := by
    have starts : ∀ tokens list, Names tokens list → ∃ first later, tokens = first :: later ∧ first = .opening := by
      rintro tokens list rfl
      exact ⟨.opening, _, rfl, rfl⟩
    rw [next_is_opening_iff, List.map_append, later]
    rcases series_head Names (· = .opening) starts _ _ series with ⟨-, none⟩ | ⟨first, more, rfl, rfl⟩
    · exact absurd none some
    · rfl
  obtain ⟨middle, read, closed⟩ := reads_closed
    (read_times_recognises (read_text_list_recognises "strategy names") names.length) "end of strategy block"
    lists names ⟨series, rfl⟩ others rest later
  rw [List.cons_append, readStrategies, expect_reads .opening "strategy block" opening _ opened, ok_bind,
    if_pos named, read, ok_bind]
  dsimp only
  rw [closed]
  rfl

-- Without players the block is empty, and its closing brace stands where a count could.
theorem read_strategies_block (players : Nat) (tokens : List Token) (names : List (List String))
    (block : StrategyBlock players tokens names) :
    ∃ strategies : Strategies, strategies.names = names ∧ Reads (readStrategies players) tokens strategies := by
  cases block with
  | named names lists series size =>
      subst size
      by_cases none : names = []
      · subst none
        obtain ⟨parts, rfl, each⟩ := series
        cases each
        exact ⟨.counted [], rfl, read_counted_block [] [] (series_nil Count)⟩
      · exact ⟨.named names, rfl, read_named_block names lists series none⟩
  | counted counts numbers series size =>
      subst size
      exact ⟨.counted counts, rfl, read_counted_block counts numbers series⟩

theorem read_comment_shaped (located rest : Tokens) (comment : String)
    (read : readComment located = (comment, rest)) :
    ∃ used, located = used ++ rest ∧ Comment (used.map Located.token) comment := by
  unfold readComment at read
  split at read
  · rename_i content line after
    cases read
    exact ⟨[⟨.text comment, line⟩], rfl, .present comment⟩
  · cases read
    exact ⟨[], rfl, .absent⟩

-- A token that is no comment stays for the reader of the content.
theorem read_comment_reads (comment : Located) (content : String) (rest : Tokens)
    (text : comment.token = .text content) : readComment (comment :: rest) = (content, rest) := by
  obtain ⟨token, line⟩ := comment
  cases text
  rfl

theorem read_comment_before (note : Tokens) (comment : String) (rest : Tokens)
    (remark : Comment (note.map Located.token) comment)
    (other : ∀ text, (rest.map Located.token).head? ≠ some (.text text)) :
    readComment (note ++ rest) = (comment, rest) := by
  generalize same : note.map Located.token = tokens at remark
  cases remark with
  | absent =>
      obtain rfl := List.map_eq_nil_iff.mp same
      cases rest with
      | nil => rfl
      | cons found rest =>
          unfold readComment
          split
          · rename_i content line after starts
            cases starts
            exact absurd rfl (other content)
          · rfl
  | present =>
      obtain ⟨found, rfl, text⟩ := List.map_eq_singleton_iff.mp same
      exact read_comment_reads found comment rest text

end NormalForm.File
