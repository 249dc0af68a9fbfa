import NormalForm.Proofs.File.Acceptance

/-!
Readers look at the line of a token only to say where they failed. Two lists of the same tokens on any lines
are read alike: both give the same value and leave the same tokens, or both give the same failure, each with a
line of its own.
-/

set_option autoImplicit false

namespace NormalForm

-- A failure without the line at which it was found.
def ReadError.unplaced : ReadError → ReadError
  | .unexpected _ expected found => .unexpected 0 expected found
  | .unterminatedString _ => .unterminatedString 0
  | .badNumber _ text => .badNumber 0 text
  | .header _ found => .header 0 found
  | .unknownOutcome _ id => .unknownOutcome 0 id
  | failure => failure

namespace File

-- The same tokens, whatever their lines.
def Alike (one other : Tokens) : Prop := one.map Located.token = other.map Located.token

-- Two readings that tell the same apart from lines.
inductive Agree {α : Type} (Same : α → α → Prop) : Except ReadError α → Except ReadError α → Prop where
  | read (one other : α) (same : Same one other) : Agree Same (.ok one) (.ok other)
  | failed (one other : ReadError) (same : one.unplaced = other.unplaced) : Agree Same (.error one) (.error other)

-- The same value, with tokens left that are alike.
def Beside {α : Type} (one other : α × Tokens) : Prop := one.1 = other.1 ∧ Alike one.2 other.2

def Blind {α : Type} (Same : α → α → Prop) (item : Tokens → Except ReadError α) : Prop :=
  ∀ one other, Alike one other → Agree Same (item one) (item other)

abbrev BlindReader {α : Type} (item : Tokens → Except ReadError (α × Tokens)) : Prop := Blind Beside item

theorem agree_bind {α β : Type} {Same : α → α → Prop} {Then : β → β → Prop} {one other : Except ReadError α}
    {next after : α → Except ReadError β} (first : Agree Same one other)
    (later : ∀ left right, Same left right → Agree Then (next left) (after right)) :
    Agree Then (one >>= next) (other >>= after) := by
  cases first with
  | read left right same => exact later left right same
  | failed left right same => exact .failed left right same

theorem agree_reading {α β : Type} {Then : β → β → Prop} {one other : Except ReadError (α × Tokens)}
    {next after : α × Tokens → Except ReadError β} (first : Agree Beside one other)
    (later : ∀ value rest others, Alike rest others → Agree Then (next (value, rest)) (after (value, others))) :
    Agree Then (one >>= next) (other >>= after) := by
  refine agree_bind first ?_
  rintro ⟨value, rest⟩ ⟨again, others⟩ ⟨rfl, alike⟩
  exact later value rest others alike

theorem agree_unplaced {α : Type} (one other : Except ReadError α) (agree : Agree Eq one other) :
    one.mapError ReadError.unplaced = other.mapError ReadError.unplaced := by
  cases agree with
  | read left right same => rw [same]
  | failed left right same => exact congrArg Except.error same

/-! Single tokens. -/

theorem unexpected_agrees {α : Type} (Same : α → α → Prop) (expected : String) (token : Token) (line other : Nat) :
    Agree Same (unexpected expected ⟨token, line⟩) (unexpected expected ⟨token, other⟩) :=
  .failed _ _ rfl

theorem alike_nil (other : Tokens) (alike : Alike [] other) : other = [] := List.map_eq_nil_iff.mp alike.symm

theorem alike_cons (token : Token) (line : Nat) (rest other : Tokens) (alike : Alike (⟨token, line⟩ :: rest) other) :
    ∃ place others, other = ⟨token, place⟩ :: others ∧ Alike rest others := by
  obtain ⟨⟨copy, place⟩, others, rfl, same, later⟩ := List.map_eq_cons_iff.mp alike.symm
  obtain rfl : copy = token := same
  exact ⟨place, others, rfl, later.symm⟩

-- What is done with the next token may depend on its line only in what it says of a failure.
theorem agree_next {β : Type} {Then : β → β → Prop} {expected : String} {one other : Tokens}
    {onward after : Located × Tokens → Except ReadError β} (alike : Alike one other)
    (later : ∀ token line place rest others, Alike rest others →
      Agree Then (onward (⟨token, line⟩, rest)) (after (⟨token, place⟩, others))) :
    Agree Then (next expected one >>= onward) (next expected other >>= after) := by
  cases one with
  | nil =>
      obtain rfl := alike_nil other alike
      exact .failed _ _ rfl
  | cons found rest =>
      obtain ⟨place, others, rfl, same⟩ := alike_cons found.token found.line rest other alike
      exact later found.token found.line place rest others same

theorem expect_blind (token : Token) (expected : String) : Blind Alike (expect token expected) := by
  intro one other alike
  refine agree_next alike fun found line place rest others later => ?_
  dsimp only
  split
  · exact .read _ _ later
  · exact unexpected_agrees _ expected found line place

theorem read_text_blind (expected : String) : BlindReader (readText expected) := by
  intro one other alike
  refine agree_next alike fun found line place rest others later => ?_
  cases found with
  | text content => exact .read _ _ ⟨rfl, later⟩
  | _ => exact unexpected_agrees _ expected _ line place

theorem skip_commas_alike (one other : Tokens) (alike : Alike one other) :
    Alike (skipCommas one) (skipCommas other) := by
  have skipped : ∀ tokens : Tokens, (skipCommas tokens).map Located.token =
      (tokens.map Located.token).dropWhile (· == .comma) := fun tokens => by
    rw [skipCommas, List.dropWhile_map]
    rfl
  rw [Alike, skipped, skipped, alike]

theorem read_number_blind (expected : String) : BlindReader (readNumber expected) := by
  intro one other alike
  refine agree_next (skip_commas_alike one other alike) fun found line place rest others later => ?_
  cases found with
  | number value => exact .read _ _ ⟨rfl, later⟩
  | _ => exact unexpected_agrees _ expected _ line place

theorem read_count_blind (expected : String) : BlindReader (readCount expected) := by
  intro one other alike
  refine agree_reading (read_number_blind expected one other alike) fun value rest others later => ?_
  dsimp only
  split
  · exact .read _ _ ⟨rfl, later⟩
  · exact unexpected_agrees _ expected _ _ _

theorem read_id_blind (outcomes : Nat) : BlindReader (readId outcomes) := by
  intro one other alike
  refine agree_reading (read_count_blind "outcome id" one other alike) fun id rest others later => ?_
  dsimp only
  split
  · exact .read _ _ ⟨rfl, later⟩
  · exact .failed _ _ rfl

/-! Lists. -/

theorem read_texts_blind (expected : String) : BlindReader (readTexts expected) := by
  intro one
  induction one with
  | nil =>
      intro other alike
      obtain rfl := alike_nil other alike
      exact .failed _ _ rfl
  | cons first rest ih =>
      intro other alike
      obtain ⟨token, line⟩ := first
      obtain ⟨place, others, rfl, later⟩ := alike_cons token line rest other alike
      cases token with
      | closing => exact .read _ _ ⟨rfl, later⟩
      | text content =>
          refine agree_reading (ih others later) fun contents after behind left => ?_
          exact .read _ _ ⟨rfl, left⟩
      | _ => exact unexpected_agrees _ expected _ line place

theorem read_text_list_blind (expected : String) : BlindReader (readTextList expected) := by
  intro one other alike
  exact agree_bind (expect_blind .opening expected one other alike) (read_texts_blind expected)

section

variable {α : Type} {item : Tokens → Except ReadError (α × Tokens)}

theorem read_after_blind (blind : BlindReader item) (count : Nat) (read : List α) :
    BlindReader (readAfter item read count) := by
  induction count generalizing read with
  | zero => exact fun one other alike => .read _ _ ⟨rfl, alike⟩
  | succ count ih =>
      intro one other alike
      refine agree_reading (blind one other alike) fun value rest others later => ?_
      exact ih (value :: read) rest others later

theorem read_times_blind (blind : BlindReader item) (count : Nat) : BlindReader (readTimes count item) :=
  read_after_blind blind count []

-- A part with the brace that closes it.
theorem closed_blind {β : Type} (blind : BlindReader item) (expected : String) (result : α → β) :
    BlindReader fun tokens => item tokens >>= fun read =>
      expect .closing expected read.2 >>= fun rest => .ok (result read.1, rest) := by
  intro one other alike
  refine agree_reading (blind one other alike) fun value rest others later => ?_
  exact agree_bind (expect_blind .closing expected rest others later) fun left right left => .read _ _ ⟨rfl, left⟩

end

/-! Parts of a file. -/

theorem read_header_blind : Blind Alike readHeader := by
  intro one other alike
  refine agree_next alike fun magic line place rest others later => ?_
  refine agree_next later fun version _ _ rest others later => ?_
  refine agree_next later fun field _ _ rest others later => ?_
  dsimp only
  split
  · exact .read _ _ later
  · exact .failed _ _ rfl

theorem next_is_opening_alike (one other : Tokens) (alike : Alike one other) :
    nextIsOpening one = nextIsOpening other := by
  rw [Bool.eq_iff_iff, next_is_opening_iff, next_is_opening_iff, alike]

theorem read_strategies_blind (players : Nat) : BlindReader (readStrategies players) := by
  intro one other alike
  refine agree_bind (expect_blind .opening _ one other alike) fun rest others later => ?_
  rw [next_is_opening_alike rest others later]
  split
  · exact closed_blind (read_times_blind (read_text_list_blind _) players) _ Strategies.named rest others later
  · exact closed_blind (read_times_blind (read_count_blind _) players) _ Strategies.counted rest others later

theorem read_comment_alike (one other : Tokens) (alike : Alike one other) :
    Beside (readComment one) (readComment other) := by
  cases one with
  | nil =>
      obtain rfl := alike_nil other alike
      exact ⟨rfl, rfl⟩
  | cons first rest =>
      obtain ⟨token, line⟩ := first
      obtain ⟨place, others, rfl, later⟩ := alike_cons token line rest other alike
      cases token with
      | text content => exact ⟨rfl, later⟩
      | _ => exact ⟨rfl, alike⟩

theorem read_outcome_blind (players : Nat) : BlindReader (readOutcome players) := by
  intro one other alike
  refine agree_bind (expect_blind .opening _ one other alike) fun rest others later => ?_
  refine agree_reading (read_text_blind _ rest others later) fun label rest others later => ?_
  exact closed_blind (read_times_blind (read_number_blind "payoff") players) _ (Prod.mk label) rest others later

theorem read_outcomes_fails (players : Nat) (read : List (String × List Rat)) (tokens : Tokens) (failure : ReadError)
    (goes : ¬ tokens.head?.map Located.token = some .closing) (refused : readOutcome players tokens = .error failure) :
    readOutcomes players read tokens = .error failure := by
  rw [readOutcomes, if_neg goes]
  split
  · rename_i other found
    cases refused.symm.trans found
    rfl
  · rename_i outcome rest found
    cases refused.symm.trans found

-- The induction is that of the reader on one side; the other side takes the same branch.
theorem read_outcomes_blind (players : Nat) (read : List (String × List Rat)) :
    BlindReader (readOutcomes players read) := by
  intro one
  have heads : ∀ one other : Tokens, Alike one other →
      one.head?.map Located.token = other.head?.map Located.token := fun one other alike => by
    rw [← List.head?_map, ← List.head?_map, alike]
  fun_induction readOutcomes players read one with
  | case1 read one closed =>
      intro other alike
      rw [readOutcomes, if_pos (heads one other alike ▸ closed)]
      exact .read _ _ ⟨rfl, alike⟩
  | case2 read one goes failure refused =>
      intro other alike
      have agree := read_outcome_blind players one other alike
      rw [refused] at agree
      generalize taken : readOutcome players other = outcome at agree
      cases agree with
      | failed _ failure' same =>
          rw [read_outcomes_fails players read other failure' (heads one other alike ▸ goes) taken]
          exact .failed _ _ same
  | case3 read one goes outcome after first ih =>
      intro other alike
      have agree := read_outcome_blind players one other alike
      rw [first] at agree
      generalize taken : readOutcome players other = reading at agree
      cases agree with
      | read _ reading same =>
          obtain ⟨outcome', others⟩ := reading
          obtain ⟨rfl, later⟩ := same
          rw [read_outcomes_step players read other others _ taken]
          exact ih others later

theorem read_content_blind (dims : Dimensions) (cells : Nat) : BlindReader (readContent dims cells) := by
  intro one other alike
  unfold readContent
  rw [next_is_opening_alike one other alike]
  split
  · refine agree_bind (expect_blind .opening _ one other alike) fun rest others later => ?_
    refine agree_reading (read_outcomes_blind dims.length [] rest others later) fun listed rest others later => ?_
    refine agree_bind (expect_blind .closing _ rest others later) fun rest others later => ?_
    have numbers := read_times_blind (read_id_blind listed.length) cells rest others later
    exact agree_reading numbers fun ids rest others later => .read _ _ ⟨rfl, later⟩
  · have numbers := read_times_blind (read_number_blind "payoff") (cells * dims.length) one other alike
    exact agree_reading numbers fun values rest others later => .read _ _ ⟨rfl, later⟩

/-! Whole files. -/

theorem agree_refl {α : Type} (outcome : Except ReadError α) : Agree Eq outcome outcome := by
  cases outcome with
  | error failure => exact .failed _ _ rfl
  | ok value => exact .read _ _ rfl

theorem read_description_blind : Blind Eq readDescription := by
  intro one other alike
  refine agree_bind (read_header_blind one other alike) fun rest others later => ?_
  refine agree_reading (read_text_blind _ rest others later) fun title rest others later => ?_
  refine agree_reading (read_text_list_blind _ rest others later) fun names rest others later => ?_
  refine agree_reading (read_strategies_blind names.length rest others later) fun strategies rest others later => ?_
  dsimp only
  have remark := read_comment_alike rest others later
  generalize readComment rest = noted at remark
  generalize readComment others = repeated at remark
  obtain ⟨comment, rest⟩ := noted
  obtain ⟨again, others⟩ := repeated
  obtain ⟨rfl, later⟩ := remark
  refine agree_bind (agree_refl (admitCells strategies.dimensions)) ?_
  rintro cells _ rfl
  refine agree_reading (read_content_blind _ cells rest others later) fun content rest others later => ?_
  dsimp only
  cases rest with
  | nil =>
      obtain rfl := alike_nil others later
      exact .read _ _ rfl
  | cons first rest =>
      obtain ⟨place, others, rfl, -⟩ := alike_cons first.token first.line rest others later
      exact unexpected_agrees _ _ first.token first.line place

end File

end NormalForm
