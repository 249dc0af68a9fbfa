import Mathlib.Data.Rat.Lemmas
import NormalForm.File.Reader

/-!
The language of game files and the games that they denote, apart from how files are read. A text is
a sequence of lexemes; the lexemes of a file form a sentence that describes a game.
-/

set_option autoImplicit false

namespace NormalForm.File

/-! Lexemes. -/

def Letter (c : Char) : Prop := ('a' ≤ c ∧ c ≤ 'z') ∨ ('A' ≤ c ∧ c ≤ 'Z')

def WordPart (c : Char) : Prop := Letter c ∨ ('0' ≤ c ∧ c ≤ '9') ∨ c = '_'

instance (c : Char) : Decidable (Letter c) :=
  inferInstanceAs (Decidable (('a' ≤ c ∧ c ≤ 'z') ∨ ('A' ≤ c ∧ c ≤ 'Z')))

instance (c : Char) : Decidable (WordPart c) :=
  inferInstanceAs (Decidable (Letter c ∨ ('0' ≤ c ∧ c ≤ '9') ∨ c = '_'))

-- Neither a blank nor a brace, a comma or a quote.
structure Plain (c : Char) : Prop where
  solid : Text.isBlank c = false
  notOpening : c ≠ '{'
  notClosing : c ≠ '}'
  notComma : c ≠ ','
  notQuote : c ≠ '"'

-- A run of characters ends here, since the next one is not of its kind.
def Ends (Part : Char → Prop) (rest : List Char) : Prop := ∀ c ∈ rest.head?, ¬ Part c

-- Text between quotes with its content; a backslash takes the next character as it stands.
inductive Quoted : List Char → List Char → Prop where
  | nil : Quoted [] []
  | plain (c : Char) (text content : List Char) (notQuote : c ≠ '"') (notSlash : c ≠ '\\')
      (rest : Quoted text content) : Quoted (c :: text) (c :: content)
  | escaped (c : Char) (text content : List Char) (rest : Quoted text content) :
      Quoted ('\\' :: c :: text) (c :: content)

-- A text that starts with a token, and the text after it.
inductive Lexeme : List Char → Token → List Char → Prop where
  | opening (rest : List Char) : Lexeme ('{' :: rest) .opening rest
  | closing (rest : List Char) : Lexeme ('}' :: rest) .closing rest
  | comma (rest : List Char) : Lexeme (',' :: rest) .comma rest
  | text (quoted content rest : List Char) (reads : Quoted quoted content) :
      Lexeme ('"' :: (quoted ++ '"' :: rest)) (.text (String.ofList content)) rest
  | word (c : Char) (letters rest : List Char) (first : Letter c) (parts : ∀ d ∈ letters, WordPart d)
      (ends : Ends WordPart rest) :
      Lexeme (c :: (letters ++ rest)) (.word (String.ofList (c :: letters))) rest
  | number (c : Char) (run rest : List Char) (value : Rat) (first : Plain c) (notLetter : ¬ Letter c)
      (parts : ∀ d ∈ run, Plain d) (ends : Ends Plain rest) (reads : Decimal.numeral? (c :: run) = some value) :
      Lexeme (c :: (run ++ rest)) (.number value) rest

inductive Lexes : List Char → List Token → Prop where
  | done : Lexes [] []
  | blank (c : Char) (rest : List Char) (tokens : List Token) (blank : Text.isBlank c = true)
      (later : Lexes rest tokens) : Lexes (c :: rest) tokens
  | token (text rest : List Char) (token : Token) (tokens : List Token) (first : Lexeme text token rest)
      (later : Lexes rest tokens) : Lexes text (token :: tokens)

/-! Sentences. -/

-- Values one after another, each with tokens of its own.
def Series {β : Type} (Item : List Token → β → Prop) (tokens : List Token) (values : List β) : Prop :=
  ∃ parts, tokens = parts.flatten ∧ List.Forall₂ Item parts values

-- Commas before a number mean nothing.
def Amount (tokens : List Token) (value : Rat) : Prop :=
  ∃ commas, tokens = List.replicate commas .comma ++ [.number value]

def Whole (tokens : List Token) (n : Nat) : Prop := Amount tokens (n : Rat)

def Count (tokens : List Token) (n : Nat) : Prop := Whole tokens n ∧ n < 2 ^ 64

def Names (tokens : List Token) (names : List String) : Prop :=
  tokens = .opening :: (names.map Token.text ++ [.closing])

-- The strategies of so many players, by name or by number.
inductive StrategyBlock (players : Nat) : List Token → List (List String) → Prop where
  | named (names : List (List String)) (lists : List Token) (each : Series Names lists names)
      (size : names.length = players) : StrategyBlock players (.opening :: (lists ++ [.closing])) names
  | counted (counts : List Nat) (numbers : List Token) (each : Series Count numbers counts)
      (size : counts.length = players) :
      StrategyBlock players (.opening :: (numbers ++ [.closing])) (counts.map numberNames)

inductive Comment : List Token → String → Prop where
  | absent : Comment [] ""
  | present (text : String) : Comment [.text text] text

-- Few enough cells, and the products over leading players machine words.
structure Admitted (dims : Dimensions) : Prop where
  products : ∀ leading ≤ dims.length, Dimensions.count (dims.take leading) < 2 ^ 64
  cells : Dimensions.count dims ≤ 2 ^ 20

def Listing (players : Nat) (tokens : List Token) (outcome : String × List Rat) : Prop :=
  ∃ payoffs, tokens = .opening :: .text outcome.1 :: (payoffs ++ [.closing]) ∧
    Series Amount payoffs outcome.2 ∧ outcome.2.length = players

-- What follows the comment: outcomes with their numbers in all cells, or payoffs cell by cell.
inductive Body (players cells : Nat) : List Token → Content → Prop where
  | outcomes (listed : List (String × List Rat)) (ids : List Nat) (entries numbers : List Token)
      (each : Series (Listing players) entries listed) (cellByCell : Series Whole numbers ids)
      (known : ∀ id ∈ ids, id ≤ listed.length) (size : ids.length = cells) :
      Body players cells (.opening :: (entries ++ .closing :: numbers)) (.outcomes listed ids)
  | payoffs (values : List Rat) (numbers : List Token) (each : Series Amount numbers values)
      (size : values.length = cells * players) : Body players cells numbers (.payoffs values)

inductive Sentence : List Token → Description → Prop where
  | file (field title comment : String) (names : List String) (strategies : List (List String)) (content : Content)
      (list block note body : List Token) (kind : field = "R" ∨ field = "D") (players : Names list names)
      (plays : StrategyBlock names.length block strategies) (remark : Comment note comment)
      (admitted : Admitted (strategies.map List.length))
      (states : Body names.length (Dimensions.count (strategies.map List.length)) body content) :
      Sentence ([.word "NFG", .number 1, .word field, .text title] ++ list ++ block ++ note ++ body)
        { title, comment, players := List.zipWith Player.mk names strategies, content }

namespace Description

def dimensions (description : Description) : Dimensions :=
  description.players.map fun player => player.strategies.length

def WrittenAs (description : Description) (text : String) : Prop :=
  ∃ tokens, Lexes text.toList tokens ∧ Sentence tokens description

-- What a machine can hold of it: the strategies of each player, and the numbers of outcomes.
structure Held (description : Description) : Prop where
  strategies : ∀ d ∈ description.dimensions, Word.addressable d Dimensions.strategyBytes
  ids : ∀ listed ids, description.content = .outcomes listed ids → ∀ id ∈ ids, id < 2 ^ 64

/-! The game that is described. -/

-- Label and payoffs of the outcome at a place.
def outcome? (description : Description) (place : Nat) : Option (String × List Rat) :=
  match description.content with
  | .outcomes listed _ => listed[place]?
  | .payoffs values =>
      let players := description.players.length
      if place < Dimensions.count description.dimensions then
        some ("", (values.drop (place * players)).take players)
      else none

-- The place of the outcome in a cell, if there is one: numbers start at one, and without numbers each
-- cell has an outcome of its own.
def cell? (description : Description) (index : Nat) : Option Nat :=
  match description.content with
  | .outcomes _ ids => (ids[index]?).bind fun id => if id = 0 then none else some (id - 1)
  | .payoffs _ => some index

-- Title, comment and each outcome with its payoffs count as changes.
structure Describes (description : Description) (first : Nat) (game : Game) : Prop where
  title : game.title = description.title
  comment : game.comment = description.comment
  players : game.players = description.players
  saved : game.unsaved = false
  unrefreshed : game.refreshedAt = none
  revision : game.revision = 2 + game.outcomes.size * (1 + game.players.length)
  cells : game.cells.size = game.dimensions.count
  contents : ∀ index < game.cells.size, game.cells[index]? = some (description.cell? index)
  outcomes : ∀ place : Nat, game.outcomes[place]? = (description.outcome? place).map fun outcome =>
    .ofPayoffs ⟨first + place⟩ (place + 1) outcome.1 outcome.2

end Description

end NormalForm.File
