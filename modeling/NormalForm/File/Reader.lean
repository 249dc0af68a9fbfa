import NormalForm.File.Token
import NormalForm.Game.Build

/-!
Reading game files. A file is a header, a title, the players, their strategies as names or as counts,
an optional comment, and either a list of outcomes with one outcome number per cell or one payoff per
player for every cell.

A reader takes the tokens that are left and gives what it read together with the tokens after it.
-/

set_option autoImplicit false

namespace NormalForm

namespace File

abbrev Tokens := List Located

def maxCells : Nat := Nat.pow 2 20

def unexpected {α : Type} (expected : String) (found : Located) : Except ReadError α :=
  .error (.unexpected found.line expected found.token.describe)

def next (expected : String) : Tokens → Except ReadError (Located × Tokens)
  | [] => .error (.truncated expected)
  | found :: rest => .ok (found, rest)

def expect (token : Token) (expected : String) (tokens : Tokens) : Except ReadError Tokens := do
  let (found, rest) ← next expected tokens
  if found.token = token then .ok rest else unexpected expected found

def readText (expected : String) (tokens : Tokens) : Except ReadError (String × Tokens) := do
  let (found, rest) ← next expected tokens
  match found.token with
  | .text content => .ok (content, rest)
  | _ => unexpected expected found

-- Commas before a number mean nothing.
def skipCommas (tokens : Tokens) : Tokens := tokens.dropWhile fun found => found.token == .comma

def readNumber (expected : String) (tokens : Tokens) : Except ReadError (Rat × Tokens) := do
  let (found, rest) ← next expected (skipCommas tokens)
  match found.token with
  | .number value => .ok (value, rest)
  | _ => unexpected expected found

def lineOf (tokens : Tokens) : Nat := (tokens.head?.map Located.line).getD 1

-- A number that is a count, a whole machine word.
def readCount (expected : String) (tokens : Tokens) : Except ReadError (Nat × Tokens) := do
  let (value, rest) ← readNumber expected tokens
  if value.den = 1 ∧ 0 ≤ value.num ∧ Word.fits value.num.toNat then .ok (value.num.toNat, rest)
  else unexpected expected ⟨.number value, lineOf tokens⟩

def readTexts (expected : String) : Tokens → Except ReadError (List String × Tokens)
  | [] => .error (.truncated expected)
  | found :: rest =>
      match found.token with
      | .closing => .ok ([], rest)
      | .text content => do
          let (contents, after) ← readTexts expected rest
          .ok (content :: contents, after)
      | _ => unexpected expected found

def readTextList (expected : String) (tokens : Tokens) : Except ReadError (List String × Tokens) := do
  let rest ← expect .opening expected tokens
  readTexts expected rest

-- A fixed number of items after those already read, which come last first.
def readAfter {α : Type} (item : Tokens → Except ReadError (α × Tokens)) (read : List α) :
    Nat → Tokens → Except ReadError (List α × Tokens)
  | 0, tokens => .ok (read.reverse, tokens)
  | count + 1, tokens => do
      let (value, rest) ← item tokens
      readAfter item (value :: read) count rest

def readTimes {α : Type} (count : Nat) (item : Tokens → Except ReadError (α × Tokens))
    (tokens : Tokens) : Except ReadError (List α × Tokens) :=
  readAfter item [] count tokens

def readHeader (tokens : Tokens) : Except ReadError Tokens := do
  let (magic, rest) ← next "NFG header" tokens
  let (version, rest) ← next "format version" rest
  let (field, rest) ← next "number field" rest
  if magic.token = .word "NFG" ∧ version.token = .number 1 ∧
      (field.token = .word "R" ∨ field.token = .word "D") then .ok rest
  else
    .error (.header magic.line
      (magic.token.describe ++ " " ++ version.token.describe ++ " " ++ field.token.describe))

inductive Strategies where
  | named (names : List (List String))
  | counted (counts : List Nat)

namespace Strategies

def dimensions : Strategies → Dimensions
  | named names => names.map List.length
  | counted counts => counts

def names : Strategies → List (List String)
  | named names => names
  | counted counts => counts.map numberNames

end Strategies

def nextIsOpening (tokens : Tokens) : Bool := tokens.head?.map Located.token == some .opening

def readStrategies (players : Nat) (tokens : Tokens) : Except ReadError (Strategies × Tokens) := do
  let rest ← expect .opening "strategy block" tokens
  if nextIsOpening rest then
    let (names, rest) ← readTimes players (readTextList "strategy names") rest
    let rest ← expect .closing "end of strategy block" rest
    .ok (.named names, rest)
  else
    let (counts, rest) ← readTimes players (readCount "strategy count") rest
    let rest ← expect .closing "end of strategy block" rest
    .ok (.counted counts, rest)

def readComment (tokens : Tokens) : String × Tokens :=
  match tokens with
  | ⟨.text content, _⟩ :: rest => (content, rest)
  | _ => ("", tokens)

def readOutcome (players : Nat) (tokens : Tokens) :
    Except ReadError ((String × List Rat) × Tokens) := do
  let rest ← expect .opening "outcome" tokens
  let (label, rest) ← readText "outcome label" rest
  let (payoffs, rest) ← readTimes players (readNumber "payoff") rest
  let rest ← expect .closing "end of outcome" rest
  .ok ((label, payoffs), rest)

/-! Every reader leaves a shorter list of tokens. -/

theorem next_length {expected : String} {tokens rest : Tokens} {found : Located}
    (read : next expected tokens = .ok (found, rest)) : rest.length < tokens.length := by
  cases tokens with
  | nil => cases read
  | cons first others =>
      cases read
      exact Nat.lt_succ_self _

theorem expect_length {token : Token} {expected : String} {tokens rest : Tokens}
    (read : expect token expected tokens = .ok rest) : rest.length < tokens.length := by
  obtain ⟨⟨found, after⟩, first, finish⟩ := bind_eq_ok.mp read
  dsimp only at finish
  split at finish
  · cases finish
    exact next_length first
  · cases finish

theorem read_text_length {expected content : String} {tokens rest : Tokens}
    (read : readText expected tokens = .ok (content, rest)) : rest.length < tokens.length := by
  obtain ⟨⟨found, after⟩, first, finish⟩ := bind_eq_ok.mp read
  dsimp only at finish
  split at finish
  · cases finish
    exact next_length first
  · cases finish

theorem skip_commas_length (tokens : Tokens) : (skipCommas tokens).length ≤ tokens.length :=
  (List.dropWhile_suffix _).length_le

theorem read_number_length {expected : String} {value : Rat} {tokens rest : Tokens}
    (read : readNumber expected tokens = .ok (value, rest)) : rest.length < tokens.length := by
  obtain ⟨⟨found, after⟩, first, finish⟩ := bind_eq_ok.mp read
  dsimp only at finish
  split at finish
  · cases finish
    exact Nat.lt_of_lt_of_le (next_length first) (skip_commas_length tokens)
  · cases finish

theorem read_after_length {α : Type} {item : Tokens → Except ReadError (α × Tokens)}
    (shortens : ∀ tokens value rest, item tokens = .ok (value, rest) → rest.length < tokens.length)
    (count : Nat) (items read : List α) (tokens rest : Tokens)
    (run : readAfter item items count tokens = .ok (read, rest)) :
    rest.length ≤ tokens.length := by
  induction count generalizing items tokens with
  | zero =>
      cases run
      exact Nat.le_refl _
  | succ count hyp =>
      obtain ⟨⟨value, after⟩, first, finish⟩ := bind_eq_ok.mp run
      have shorter := shortens tokens value after first
      have remaining := hyp (value :: items) after finish
      omega

theorem read_outcome_length {players : Nat} {tokens rest : Tokens} {outcome : String × List Rat}
    (read : readOutcome players tokens = .ok (outcome, rest)) : rest.length < tokens.length := by
  obtain ⟨afterOpening, opened, run⟩ := bind_eq_ok.mp read
  obtain ⟨⟨label, afterLabel⟩, labelled, run⟩ := bind_eq_ok.mp run
  obtain ⟨⟨payoffs, afterPayoffs⟩, paid, run⟩ := bind_eq_ok.mp run
  obtain ⟨afterClosing, closed, finish⟩ := bind_eq_ok.mp run
  cases finish
  have one := expect_length opened
  have two := read_text_length labelled
  have three := read_after_length (fun _ _ _ => read_number_length) players [] payoffs _ _ paid
  have four := expect_length closed
  omega

-- Outcomes up to a closing brace, after those already read, which come last first.
def readOutcomes (players : Nat) (read : List (String × List Rat)) (tokens : Tokens) :
    Except ReadError (List (String × List Rat) × Tokens) :=
  if tokens.head?.map Located.token = some .closing then .ok (read.reverse, tokens)
  else
    match _found : readOutcome players tokens with
    | .error failure => .error failure
    | .ok (outcome, rest) => readOutcomes players (outcome :: read) rest
termination_by tokens.length
decreasing_by exact read_outcome_length _found

def readId (outcomes : Nat) (tokens : Tokens) : Except ReadError (Nat × Tokens) := do
  let (id, rest) ← readCount "outcome id" tokens
  if id ≤ outcomes then .ok (id, rest) else .error (.unknownOutcome (lineOf tokens) id)

inductive Content where
  -- Outcomes by label and payoffs, and the outcome number of every cell, zero for none.
  | outcomes (listed : List (String × List Rat)) (ids : List Nat)
  | payoffs (values : List Rat)

structure Description where
  title : String
  comment : String
  players : List Player
  content : Content

def readContent (dims : Dimensions) (cells : Nat) (tokens : Tokens) :
    Except ReadError (Content × Tokens) := do
  if nextIsOpening tokens then
    let rest ← expect .opening "outcome block" tokens
    let (listed, rest) ← readOutcomes dims.length [] rest
    let rest ← expect .closing "end of outcome block" rest
    let (ids, rest) ← readTimes cells (readId listed.length) rest
    .ok (.outcomes listed ids, rest)
  else
    let (values, rest) ← readTimes (cells * dims.length) (readNumber "payoff") tokens
    .ok (.payoffs values, rest)

-- The number of cells, refused when it is above the limit or no machine word, or when the strategies
-- could not be held.
def admitCells (dims : Dimensions) : Except ReadError Nat :=
  match dims.product? with
  | none => .error (.tooLarge dims maxCells)
  | some cells =>
      if maxCells < cells then .error (.tooLarge dims maxCells)
      else if dims.count?.isNone then .error .unaddressable
      else .ok cells

def readDescription (tokens : Tokens) : Except ReadError Description := do
  let rest ← readHeader tokens
  let (title, rest) ← readText "title" rest
  let (names, rest) ← readTextList "player names" rest
  let (strategies, rest) ← readStrategies names.length rest
  let (comment, rest) := readComment rest
  let dims := strategies.dimensions
  let cells ← admitCells dims
  let (content, rest) ← readContent dims cells rest
  match rest with
  | [] => .ok { title, comment, players := List.zipWith Player.mk names strategies.names, content }
  | found :: _ => unexpected "end of input" found

namespace Description

def frame (description : Description) : Game :=
  let dims : Dimensions := description.players.map fun player => player.strategies.length
  let game := ((Game.blank dims).setTitle description.title).setComment description.comment
  { game with players := description.players }

def addListed (game : Game) (first : Nat) : List (String × List Rat) → Game
  | [] => game
  | (label, payoffs) :: rest => addListed (game.addOutcome ⟨first⟩ label payoffs) (first + 1) rest

def placeOfId : Nat → Option Nat
  | 0 => none
  | place + 1 => some place

-- The game that a description denotes, saved; its outcomes get handles from `first` on.
def toGame (description : Description) (first : Nat) : Game :=
  let game := description.frame
  match description.content with
  | .outcomes listed ids =>
      { addListed game first listed with cells := (ids.map placeOfId).toArray }.markSaved
  | .payoffs values =>
      let players := description.players.length
      let table := values.toArray
      (game.fill first fun index =>
        (List.range players).map fun player => table.getD (index * players + player) 0).markSaved

end Description

end File

-- Reads a game from the text of a file; its outcomes get handles from `first` on.
def Game.parse (first : Nat) (text : String) : Except ReadError Game := do
  let tokens ← File.tokenize text
  let description ← File.readDescription tokens
  .ok (description.toGame first)

def Game.ofBytes (first : Nat) (bytes : ByteArray) : Except ReadError Game :=
  match String.fromUTF8? bytes with
  | some text => Game.parse first text
  | none => .error .notUnicode

end NormalForm
