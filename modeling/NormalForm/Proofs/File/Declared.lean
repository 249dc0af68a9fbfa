import NormalForm.Proofs.File.Acceptance
import NormalForm.Proofs.File.Lexing

/-!
The numbers of strategies that a text declares, and what becomes of a text for them alone: they are refused when
they leave too many cells, and when the strategies of a player cannot be held the reading ends in a fault. In no
other way does it end in a fault.
-/

set_option autoImplicit false

namespace NormalForm

namespace File

-- Tokens that declare so many strategies for each player, whatever comes after them.
inductive Declares : List Token → Dimensions → Prop where
  | block (field title : String) (names : List String) (strategies : List (List String))
      (list block after : List Token) (kind : field = "R" ∨ field = "D") (players : Names list names)
      (plays : StrategyBlock names.length block strategies) :
      Declares ([.word "NFG", .number 1, .word field, .text title] ++ list ++ block ++ after)
        (strategies.map List.length)

theorem sentence_declares (tokens : List Token) (description : Description) (sentence : Sentence tokens description) :
    Declares tokens description.dimensions ∧ Admitted description.dimensions := by
  cases sentence with
  | file field title comment names strategies content list block note body kind players plays remark admitted states =>
      have dims := zip_dimensions names strategies (block_size _ _ _ plays)
      rw [Description.dimensions, dims, List.append_assoc _ note body]
      exact ⟨.block field title names strategies list block _ kind players plays, admitted⟩

-- The numbers of strategies are all that a refusal for size depends on.
theorem read_description_too_large (located : Tokens) (dims : Dimensions)
    (declares : Declares (located.map Located.token) dims) (refused : ¬ Admitted dims) :
    readDescription located = .error (.tooLarge dims maxCells) := by
  generalize same : located.map Located.token = tokens at declares
  cases declares with
  | block field title names strategies list block after kind players plays =>
      obtain ⟨choice, rest, rfl, -, run⟩ :=
        read_description_start located field title names strategies list block after kind players plays same
      rw [← names_of_dimensions] at refused ⊢
      rw [run, readNoted, admit_cells_too_large choice.dimensions refused]
      rfl

/-! Readers without faults. -/

-- A failure, if there is one, that a caller is told of.
def Faultless {α : Type} (outcome : Except ReadError α) : Prop :=
  ∀ failure, outcome = .error failure → failure.fault? = none

theorem fault_eq_none (failure : ReadError) (other : failure ≠ .unaddressable) : failure.fault? = none := by
  cases failure with
  | unaddressable => exact absurd rfl other
  | _ => rfl

theorem faultless_ok {α : Type} (value : α) : Faultless (.ok value) := by
  intro failure same
  cases same

theorem faultless_error {α : Type} (failure : ReadError) (told : failure.fault? = none) :
    Faultless (.error failure : Except ReadError α) := by
  intro other same
  cases same
  exact told

theorem faultless_bind {α β : Type} (first : Except ReadError α) (next : α → Except ReadError β)
    (faultless : Faultless first) (later : ∀ value, Faultless (next value)) : Faultless (first >>= next) := by
  cases first with
  | error failure => exact faultless_error failure (faultless failure rfl)
  | ok value => exact later value

-- A fault comes from what follows a reader without faults.
theorem fault_behind {α β : Type} (first : Except ReadError α) (next : α → Except ReadError β)
    (faultless : Faultless first) (faults : first >>= next = .error .unaddressable) :
    ∃ value, first = .ok value ∧ next value = .error .unaddressable := by
  cases first with
  | error failure =>
      cases faults
      cases faultless .unaddressable rfl
  | ok value => exact ⟨value, rfl, faults⟩

theorem unexpected_faultless {α : Type} (expected : String) (found : Located) :
    Faultless (unexpected expected found : Except ReadError α) := faultless_error _ rfl

theorem next_faultless (expected : String) (tokens : Tokens) : Faultless (next expected tokens) := by
  cases tokens with
  | nil => exact faultless_error _ rfl
  | cons found rest => exact faultless_ok (found, rest)

theorem expect_faultless (token : Token) (expected : String) (tokens : Tokens) :
    Faultless (expect token expected tokens) := by
  refine faultless_bind _ _ (next_faultless expected tokens) ?_
  rintro ⟨found, rest⟩
  dsimp only
  split
  · exact faultless_ok rest
  · exact unexpected_faultless expected found

theorem read_text_faultless (expected : String) (tokens : Tokens) : Faultless (readText expected tokens) := by
  refine faultless_bind _ _ (next_faultless expected tokens) ?_
  rintro ⟨found, rest⟩
  dsimp only
  split
  · exact faultless_ok _
  · exact unexpected_faultless expected found

theorem read_number_faultless (expected : String) (tokens : Tokens) : Faultless (readNumber expected tokens) := by
  refine faultless_bind _ _ (next_faultless expected (skipCommas tokens)) ?_
  rintro ⟨found, rest⟩
  dsimp only
  split
  · exact faultless_ok _
  · exact unexpected_faultless expected found

theorem read_count_faultless (expected : String) (tokens : Tokens) : Faultless (readCount expected tokens) := by
  refine faultless_bind _ _ (read_number_faultless expected tokens) ?_
  rintro ⟨value, rest⟩
  dsimp only
  split
  · exact faultless_ok _
  · exact unexpected_faultless expected _

theorem read_id_faultless (outcomes : Nat) (tokens : Tokens) : Faultless (readId outcomes tokens) := by
  refine faultless_bind _ _ (read_count_faultless "outcome id" tokens) ?_
  rintro ⟨id, rest⟩
  dsimp only
  split
  · exact faultless_ok _
  · exact faultless_error _ rfl

theorem read_texts_faultless (expected : String) (tokens : Tokens) : Faultless (readTexts expected tokens) := by
  induction tokens with
  | nil => exact faultless_error _ rfl
  | cons found rest ih =>
      rw [readTexts]
      split
      · exact faultless_ok _
      · exact faultless_bind _ _ ih fun _ => faultless_ok _
      · exact unexpected_faultless expected found

theorem read_text_list_faultless (expected : String) (tokens : Tokens) : Faultless (readTextList expected tokens) :=
  faultless_bind _ _ (expect_faultless .opening expected tokens) (read_texts_faultless expected)

theorem read_times_faultless {α : Type} (item : Tokens → Except ReadError (α × Tokens))
    (each : ∀ tokens, Faultless (item tokens)) (count : Nat) (tokens : Tokens) : Faultless (readTimes count item tokens) := by
  have after (count : Nat) : ∀ read tokens, Faultless (readAfter item read count tokens) := by
    induction count with
    | zero => exact fun read tokens => faultless_ok _
    | succ count ih => exact fun read tokens => faultless_bind _ _ (each tokens) fun taken => ih (taken.1 :: read) taken.2
  exact after count [] tokens

theorem read_header_faultless (tokens : Tokens) : Faultless (readHeader tokens) := by
  refine faultless_bind _ _ (next_faultless _ tokens) fun magic => ?_
  refine faultless_bind _ _ (next_faultless _ magic.2) fun version => ?_
  refine faultless_bind _ _ (next_faultless _ version.2) fun field => ?_
  dsimp only
  split
  · exact faultless_ok _
  · exact faultless_error _ rfl

-- A part with the brace that closes it.
theorem closed_faultless {α β : Type} (item : Except ReadError (α × Tokens)) (expected : String) (result : α → β)
    (inner : Faultless item) : Faultless (item >>= fun read =>
      expect .closing expected read.2 >>= fun rest => (.ok (result read.1, rest) : Except ReadError (β × Tokens))) :=
  faultless_bind _ _ inner fun read => faultless_bind _ _ (expect_faultless .closing expected read.2) fun _ => faultless_ok _

theorem read_strategies_faultless (players : Nat) (tokens : Tokens) : Faultless (readStrategies players tokens) := by
  refine faultless_bind _ _ (expect_faultless .opening "strategy block" tokens) fun rest => ?_
  split
  · exact closed_faultless _ _ _ (read_times_faultless _ (read_text_list_faultless "strategy names") players rest)
  · exact closed_faultless _ _ _ (read_times_faultless _ (read_count_faultless "strategy count") players rest)

theorem read_outcome_faultless (players : Nat) (tokens : Tokens) : Faultless (readOutcome players tokens) := by
  refine faultless_bind _ _ (expect_faultless .opening "outcome" tokens) fun rest => ?_
  refine faultless_bind _ _ (read_text_faultless "outcome label" rest) fun label => ?_
  exact closed_faultless _ _ _ (read_times_faultless _ (read_number_faultless "payoff") players label.2)

theorem read_outcomes_faultless (players : Nat) (read : List (String × List Rat)) (tokens : Tokens) :
    Faultless (readOutcomes players read tokens) := by
  fun_induction readOutcomes players read tokens with
  | case1 => exact faultless_ok _
  | case2 read tokens _ failure failed => exact faultless_error failure (read_outcome_faultless players tokens failure failed)
  | case3 _ _ _ _ _ _ ih => exact ih

theorem read_content_faultless (dims : Dimensions) (cells : Nat) (tokens : Tokens) :
    Faultless (readContent dims cells tokens) := by
  rw [readContent]
  split
  · refine faultless_bind _ _ (expect_faultless .opening "outcome block" tokens) fun rest => ?_
    refine faultless_bind _ _ (read_outcomes_faultless dims.length [] rest) fun listed => ?_
    refine faultless_bind _ _ (expect_faultless .closing "end of outcome block" listed.2) fun rest => ?_
    exact faultless_bind _ _ (read_times_faultless _ (read_id_faultless listed.1.length) cells rest) fun _ => faultless_ok _
  · exact faultless_bind _ _ (read_times_faultless _ (read_number_faultless "payoff") _ tokens) fun _ => faultless_ok _

theorem token_from_faultless (line : Nat) (c : Char) (rest : List Char) : Faultless (tokenFrom line c rest) := by
  rw [tokenFrom]
  split
  · exact faultless_ok _
  · split
    · split
      · exact faultless_error _ rfl
      · exact faultless_ok _
    · split
      · exact faultless_ok _
      · dsimp only
        split
        · exact faultless_ok _
        · exact faultless_error _ rfl

theorem tokenize_faultless (text : String) : Faultless (tokenize text) := by
  have scanned (line : Nat) (read : List Located) (text : List Char) : Faultless (scan line read text) := by
    fun_induction scan line read text with
    | case1 => exact faultless_ok _
    | case2 _ _ _ ih => exact ih
    | case3 _ _ _ _ _ _ ih => exact ih
    | case4 line _ c rest _ _ failure failed => exact faultless_error failure (token_from_faultless line c rest failure failed)
    | case5 _ _ _ _ _ _ _ _ _ _ ih => exact ih
  exact scanned 1 [] text.toList

/-! The fault. -/

theorem admit_cells_faults_iff (dims : Dimensions) : admitCells dims = .error .unaddressable ↔
    Admitted dims ∧ ¬ ∀ d ∈ dims, Word.addressable d Dimensions.strategyBytes := by
  constructor
  · intro faults
    have admitted : Admitted dims := by
      by_contra refused
      cases (admit_cells_too_large dims refused).symm.trans faults
    refine ⟨admitted, fun held => ?_⟩
    cases ((admit_cells_iff dims _).mpr ⟨admitted, held, rfl⟩).symm.trans faults
  · rintro ⟨admitted, lost⟩
    exact admit_cells_unaddressable dims admitted lost

-- What follows the strategies faults for them alone.
theorem read_noted_faults_iff (title : String) (names : List String) (strategies : Strategies) (tokens : Tokens) :
    readNoted title names strategies tokens = .error .unaddressable ↔
      admitCells strategies.dimensions = .error .unaddressable := by
  rw [readNoted]
  cases admitCells strategies.dimensions with
  | error failure =>
      constructor
      · intro same
        cases same
        rfl
      · intro same
        cases same
        rfl
  | ok cells =>
      constructor
      · intro faults
        obtain ⟨⟨content, rest⟩, -, ends⟩ := fault_behind _ _ (read_content_faultless _ cells _) faults
        cases rest with
        | nil => cases ends
        | cons found later => cases ends
      · intro same
        cases same

-- Only the numbers of strategies make a file fault, whatever comes after them.
theorem read_description_faults_iff (located : Tokens) : readDescription located = .error .unaddressable ↔
    ∃ dims, Declares (located.map Located.token) dims ∧ Admitted dims ∧
      ¬ ∀ d ∈ dims, Word.addressable d Dimensions.strategyBytes := by
  constructor
  · intro faults
    obtain ⟨afterHeader, header, run⟩ := fault_behind _ _ (read_header_faultless located) faults
    obtain ⟨⟨title, afterTitle⟩, titled, run⟩ := fault_behind _ _ (read_text_faultless "title" afterHeader) run
    obtain ⟨⟨names, afterNames⟩, listed, run⟩ := fault_behind _ _ (read_text_list_faultless "player names" afterTitle) run
    obtain ⟨⟨strategies, after⟩, chosen, run⟩ := fault_behind _ _ (read_strategies_faultless names.length afterNames) run
    have refused := (read_noted_faults_iff title names strategies after).mp run
    obtain ⟨head, field, rfl, start, kind⟩ := (read_header_iff _ _).mp header
    obtain ⟨name, rfl, text⟩ := (read_text_iff _ _ _ _).mp titled
    obtain ⟨list, rfl, players⟩ := (read_text_list_recognises _).shaped _ _ _ listed
    obtain ⟨block, rfl, plays⟩ := read_strategies_shaped _ _ _ _ chosen
    have declares := Declares.block field title names _ _ _ (after.map Located.token) kind players plays
    rw [← names_of_dimensions] at declares
    exact ⟨strategies.dimensions, by simpa [start, text] using declares, (admit_cells_faults_iff _).mp refused⟩
  · rintro ⟨dims, declares, admitted, lost⟩
    generalize same : located.map Located.token = tokens at declares
    cases declares with
    | block field title names strategies list block after kind players plays =>
        obtain ⟨choice, rest, rfl, -, run⟩ :=
          read_description_start located field title names strategies list block after kind players plays same
        rw [← names_of_dimensions] at admitted lost
        rw [run, read_noted_faults_iff]
        exact admit_cells_unaddressable choice.dimensions admitted lost

end File

end NormalForm
