import NormalForm.Proofs.File.Declared
import NormalForm.Proofs.File.Loading
import NormalForm.Proofs.File.Sentences

/-!
The game read from a text is the one that the text describes, and there is one whenever the text
describes a game that can be held.
-/

set_option autoImplicit false

namespace NormalForm

namespace File

namespace Description

variable (description : Description)

-- The outcomes that are described, in order, and the places that the cells name.
def table : List (String × List Rat) :=
  match description.content with
  | .outcomes listed _ => listed
  | .payoffs values => (List.range description.dimensions.count).map fun index =>
      ("", (values.drop (index * description.players.length)).take description.players.length)

def stored : List (Option Nat) :=
  match description.content with
  | .outcomes _ ids => ids.map placeOfId
  | .payoffs _ => (List.range description.dimensions.count).map some

theorem body_payoffs (players cells : Nat) (tokens : List Token) (values : List Rat)
    (body : Body players cells tokens (.payoffs values)) : values.length = cells * players := by
  cases body with
  | payoffs _ _ each size => exact size

-- Both forms of content load a list of outcomes and then store places in the cells.
theorem to_game_eq (first : Nat) (tokens : List Token)
    (body : Body description.players.length description.dimensions.count tokens description.content) :
    description.toGame first =
      { addListed description.frame first description.table with
        cells := description.stored.toArray
        unsaved := false } := by
  obtain ⟨title, comment, players, content⟩ := description
  cases content with
  | outcomes listed ids => rfl
  | payoffs values =>
      have size := body_payoffs _ _ _ _ body
      have cells (payer : Description) : payer.frame.cells.size = payer.dimensions.count := Array.size_replicate
      rw [toGame]
      dsimp only
      rw [fill_all _ rfl, cells]
      have rows := List.map_congr_left (l := List.range _) fun index member =>
        congrArg (Prod.mk "") (row_eq values players.length index _ size (List.mem_range.mp member))
      rw [rows]
      rfl

theorem sentence_body (tokens : List Token) (sentence : Sentence tokens description) : ∃ body,
    Body description.players.length description.dimensions.count body description.content := by
  cases sentence with
  | file field title comment names strategies content list block note body kind players plays remark admitted states =>
      have size := block_size _ _ _ plays
      refine ⟨body, ?_⟩
      rw [dimensions, zip_dimensions names strategies size, List.length_zipWith, size, Nat.min_self]
      exact states

theorem table_paid (tokens : List Token)
    (body : Body description.players.length description.dimensions.count tokens description.content) :
    ∀ entry ∈ description.table, entry.2.length = description.players.length := by
  obtain ⟨title, comment, players, content⟩ := description
  intro entry member
  cases body with
  | outcomes listed ids entries numbers each =>
      obtain ⟨part, payoffs, -, -, size⟩ := series_each _ entries listed each entry member
      exact size
  | payoffs values _ each size =>
      obtain ⟨index, inside, rfl⟩ := List.mem_map.mp member
      have row := Nat.mul_le_mul_right players.length (Nat.succ_le_of_lt (List.mem_range.mp inside))
      rw [Nat.succ_mul, ← size] at row
      rw [List.length_take, List.length_drop]
      dsimp only at row ⊢
      omega

theorem stored_length (tokens : List Token)
    (body : Body description.players.length description.dimensions.count tokens description.content) :
    description.stored.length = description.dimensions.count := by
  obtain ⟨title, comment, players, content⟩ := description
  cases body with
  | outcomes listed ids entries numbers each cellByCell known size => exact (List.length_map _).trans size
  | payoffs => simp [stored]

theorem stored_cell (index : Nat) (inside : index < description.stored.length) :
    description.stored[index]? = some (description.cell? index) := by
  obtain ⟨title, comment, players, content⟩ := description
  cases content with
  | outcomes listed ids =>
      have known : index < ids.length := by simpa [stored] using inside
      rw [stored, cell?]
      dsimp only
      rw [List.getElem?_map, List.getElem?_eq_getElem known, Option.map_some, Option.bind_some]
      cases ids[index] with
      | zero => rfl
      | succ place => rfl
  | payoffs values =>
      have known : index < (dimensions ⟨title, comment, players, .payoffs values⟩).count := by
        simpa [stored] using inside
      rw [stored, cell?]
      dsimp only
      rw [List.getElem?_map, List.getElem?_range known]
      rfl

theorem table_outcome (place : Nat) : description.table[place]? = description.outcome? place := by
  obtain ⟨title, comment, players, content⟩ := description
  cases content with
  | outcomes listed ids => rfl
  | payoffs values =>
      rw [table, outcome?]
      dsimp only
      rw [List.getElem?_map]
      split
      · rename_i known
        rw [List.getElem?_range known]
        rfl
      · rename_i beyond
        rw [List.getElem?_eq_none (by simpa using beyond)]
        rfl

theorem to_game_describes (first : Nat) (tokens : List Token) (sentence : Sentence tokens description) :
    description.Describes first (description.toGame first) := by
  obtain ⟨body, states⟩ := description.sentence_body tokens sentence
  have frame := add_listed_frame description.table description.frame first
  obtain ⟨title, comment, players, unrefreshed⟩ := frame
  have placed := add_listed_placed description.frame rfl first description.table
  have size : (addListed description.frame first description.table).outcomes.size = description.table.length := by
    simp [placed]
  rw [description.to_game_eq first body states]
  refine ⟨title, comment, players, rfl, unrefreshed, ?_, ?_, ?_, ?_⟩
  · dsimp only
    rw [add_listed_revision _ first _ _ (description.table_paid body states), size, players]
    rfl
  · have dims : Game.dimensions { addListed description.frame first description.table with
        cells := description.stored.toArray
        unsaved := false } = description.dimensions :=
      congrArg (List.map fun player : Player => player.strategies.length) players
    rw [dims]
    exact description.stored_length body states
  · intro index inside
    exact (List.getElem?_toArray).trans (description.stored_cell index inside)
  · intro place
    rw [placed, List.getElem?_toArray, List.getElem?_map, List.getElem?_zipIdx, ← description.table_outcome]
    cases description.table[place]? with
    | none => rfl
    | some entry => simp [Description.placed]

-- A description leaves no part of the game open.
theorem describes_unique (first : Nat) (one other : Game) (left : description.Describes first one)
    (right : description.Describes first other) : one = other := by
  have players : one.players = other.players := left.players.trans right.players.symm
  have outcomes : one.outcomes = other.outcomes := Array.ext_getElem? fun place =>
    (left.outcomes place).trans (right.outcomes place).symm
  have size : one.cells.size = other.cells.size := by
    rw [left.cells, right.cells, Game.dimensions, players, Game.dimensions]
  have cells : one.cells = other.cells := by
    apply Array.ext_getElem?
    intro index
    by_cases inside : index < one.cells.size
    · rw [left.contents index inside, right.contents index (size ▸ inside)]
    · rw [Array.getElem?_eq_none (Nat.not_lt.mp inside), Array.getElem?_eq_none (size ▸ Nat.not_lt.mp inside)]
  have revision : one.revision = other.revision := by
    rw [left.revision, right.revision, outcomes, players]
  have title : one.title = other.title := left.title.trans right.title.symm
  have comment : one.comment = other.comment := left.comment.trans right.comment.symm
  have refreshed : one.refreshedAt = other.refreshedAt := left.unrefreshed.trans right.unrefreshed.symm
  have saved : one.unsaved = other.unsaved := left.saved.trans right.saved.symm
  cases one
  cases other
  rw [Game.mk.injEq]
  exact ⟨title, comment, players, outcomes, cells, revision, refreshed, saved⟩

end Description

end File

namespace Game

open File Decimal

-- A text is read when it describes a game that can be held, and gives the game that it describes.
theorem parse_iff_described (first : Nat) (text : String) (game : Game) :
    Game.parse first text = .ok game ↔
      ∃ description : Description, description.WrittenAs text ∧ description.Held ∧
        description.Describes first game := by
  constructor
  · intro run
    obtain ⟨located, scanned, run⟩ := bind_eq_ok.mp run
    obtain ⟨description, read, finish⟩ := bind_eq_ok.mp run
    cases finish
    obtain ⟨sentence, held⟩ := (read_description_iff located description).mp read
    have lexes := (tokenize_iff text _).mp ⟨located, scanned, rfl⟩
    exact ⟨description, ⟨_, lexes, sentence⟩, held, description.to_game_describes first _ sentence⟩
  · rintro ⟨description, ⟨tokens, lexes, sentence⟩, held, describes⟩
    obtain ⟨located, scanned, rfl⟩ := (tokenize_iff text tokens).mpr lexes
    have read := (read_description_iff located description).mpr ⟨sentence, held⟩
    have same := description.describes_unique first _ game (description.to_game_describes first _ sentence) describes
    rw [Game.parse, scanned, ok_bind, read, ok_bind, same]

-- Reading ends in a fault where the text declares strategies in numbers that are admitted and cannot be held.
theorem parse_faults_iff (first : Nat) (text : String) : Game.parse first text = .error .unaddressable ↔
    ∃ tokens dims, Lexes text.toList tokens ∧ Declares tokens dims ∧ Admitted dims ∧
      ¬ ∀ d ∈ dims, Word.addressable d Dimensions.strategyBytes := by
  constructor
  · intro faults
    obtain ⟨located, scanned, run⟩ := fault_behind _ _ (tokenize_faultless text) faults
    have lexes := (tokenize_iff text _).mp ⟨located, scanned, rfl⟩
    cases read : readDescription located with
    | error failure =>
        rw [read] at run
        cases run
        obtain ⟨dims, declares, lost⟩ := (read_description_faults_iff located).mp read
        exact ⟨_, dims, lexes, declares, lost⟩
    | ok description =>
        rw [read] at run
        cases run
  · rintro ⟨tokens, dims, lexes, declares, lost⟩
    obtain ⟨located, scanned, rfl⟩ := (tokenize_iff text tokens).mpr lexes
    rw [Game.parse, scanned, ok_bind, (read_description_faults_iff located).mpr ⟨dims, declares, lost⟩]
    rfl

/-! A player without strategies beside one with as many as a word can count: there are no cells. -/

namespace Vast

def counts : List Nat := [0, 18446744073709551615]

def description : Description :=
  { title := "t"
    comment := ""
    players := List.zipWith Player.mk ["a", "b"] (counts.map numberNames)
    content := .payoffs [] }

def text : String := "NFG 1 R \"t\" \x7b \"a\" \"b\" \x7d \x7b 0 18446744073709551615 \x7d"

def tokens : List Token :=
  headerTokens ++ .text "t" :: (listTokens ["a", "b"] ++ .opening :: (idTokens counts ++ [.closing]))

theorem lexes : Lexes text.toList tokens := by
  have none : Denotes "0".toList ((0 : Nat) : Rat) := ⟨rfl, by decide, List.all_eq_true.mp rfl⟩
  have huge : Denotes "18446744073709551615".toList ((18446744073709551615 : Nat) : Rat) :=
    ⟨rfl, by decide, List.all_eq_true.mp rfl⟩
  have numbers := yields_append _ _ _ _ (yields_number_blank "0" _ none) (yields_number_blank _ _ huge)
  have names := yields_append _ _ _ _ yields_open_space (yields_quoted_pieces ["a", "b"])
  have block := yields_append _ _ _ _ yields_open_space (yields_append _ _ _ _ numbers yields_closing)
  have start := yields_append _ _ _ _ yields_header (yields_append _ _ _ _ (yields_quote "t") yields_space)
  have rest := yields_append _ _ _ _ names (yields_append _ _ _ _ yields_closing
    (yields_append _ _ _ _ yields_space block))
  obtain ⟨located, scanned, same⟩ := tokenize_yields text tokens (yields_append _ _ _ _ start rest)
  exact (tokenize_iff text tokens).mp ⟨located, scanned, same⟩

theorem dimensions_eq : description.dimensions = counts := counted_dimensions "t" ["a", "b"] counts [] rfl

theorem count_eq : Dimensions.count counts = 0 := Nat.zero_mul _

theorem admitted : Admitted counts := by
  refine ⟨fun leading _ => ?_, by rw [count_eq]; decide⟩
  cases leading with
  | zero => decide
  | succ leading => exact Nat.lt_of_le_of_lt (Nat.le_of_eq (Nat.zero_mul _)) (by decide)

theorem sentence : Sentence tokens description := by
  have words : ∀ n ∈ counts, n < 2 ^ 64 := by decide
  exact counted_sentence "t" ["a", "b"] counts [] rfl words admitted (by rw [count_eq]; rfl)

end Vast

theorem described_text_without_game : (∃ description : Description, description.WrittenAs Vast.text) ∧
    ∀ first, ∃ failure, Game.parse first Vast.text = .error failure ∧ failure.fault? = some .unaddressable := by
  have lost : ¬ ∀ d ∈ Vast.counts, Word.addressable d Dimensions.strategyBytes := by
    intro held
    have large : Word.addressable 18446744073709551615 Dimensions.strategyBytes :=
      held _ (List.mem_cons_of_mem _ List.mem_cons_self)
    exact absurd large (by decide)
  obtain ⟨declares, -⟩ := sentence_declares Vast.tokens Vast.description Vast.sentence
  rw [Vast.dimensions_eq] at declares
  refine ⟨⟨Vast.description, Vast.tokens, Vast.lexes, Vast.sentence⟩, fun first => ⟨.unaddressable, ?_, rfl⟩⟩
  exact (parse_faults_iff first Vast.text).mpr ⟨Vast.tokens, Vast.counts, Vast.lexes, declares, Vast.admitted, lost⟩

end Game

end NormalForm
