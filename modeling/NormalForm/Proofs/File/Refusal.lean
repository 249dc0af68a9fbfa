import NormalForm.Proofs.File.Blame

/-!
What the reader of whole files blames. It looks one token ahead to tell a list of names from counts, an outcome
from the end of the outcomes, a comment from what comes after it, and outcomes from payoffs; what follows the token
that it refuses never matters.
-/

set_option autoImplicit false

namespace NormalForm.File

/-! Parts that are told apart by their first token. -/

-- A test of the first token, which the end of the text fails.
structure Peeks (test : Tokens → Prop) : Prop where
  first : ∀ found rest later, test (found :: rest) ↔ test (found :: later)
  nothing : ¬ test []

theorem opening_peeks : Peeks fun tokens => nextIsOpening tokens = true where
  first _ _ _ := Iff.rfl
  nothing := Bool.false_ne_true

theorem closing_peeks : Peeks fun tokens => tokens.head?.map Located.token = some .closing where
  first _ _ _ := Iff.rfl
  nothing := by
    intro same
    cases same

-- The branch that is taken, and the tokens for which it is taken too.
theorem branch_taken {γ : Type} (test : Tokens → Prop) [DecidablePred test] (item other : Tokens → γ) (tokens : Tokens) :
    ∃ branch, (branch = item ∨ branch = other) ∧
      ∀ alike, (test alike ↔ test tokens) → (if test alike then item alike else other alike) = branch alike := by
  by_cases taken : test tokens
  · exact ⟨item, .inl rfl, fun alike same => if_pos (same.mpr taken)⟩
  · exact ⟨other, .inr rfl, fun alike same => if_neg fun yes => taken (same.mp yes)⟩

section

variable {test : Tokens → Prop} (peeks : Peeks test)

include peeks

theorem peeks_front (front rest later : Tokens) (some : front ≠ []) : test (front ++ rest) ↔ test (front ++ later) := by
  obtain ⟨found, others, rfl⟩ := List.exists_cons_of_ne_nil some
  exact peeks.first found (others ++ rest) (others ++ later)

-- A test says the same of all tokens with the refused one, and of those in front of it unless there are none.
theorem peeks_stay (tokens earlier gap later : Tokens) (found : Located) (same : tokens = earlier ++ (gap ++ found :: later)) :
    (∀ rest, test (earlier ++ (gap ++ found :: rest)) ↔ test tokens) ∧
      (earlier ++ gap ≠ [] → (test (earlier ++ gap) ↔ test tokens)) := by
  subst same
  refine ⟨fun rest => ?_, fun some => ?_⟩
  · have front := peeks_front peeks (earlier ++ gap ++ [found]) rest later (by simp)
    simpa using front
  · have front := peeks_front peeks (earlier ++ gap) [] (found :: later) some
    simpa using front

variable [DecidablePred test]

theorem refuses_peek {β : Type} (item other : Tokens → Except ReadError β) (tokens : Tokens) (left : Refuses item tokens)
    (right : Refuses other tokens) (nothing : Incomplete (other [])) :
    Refuses (fun tokens => if test tokens then item tokens else other tokens) tokens := by
  obtain ⟨branch, taken, agrees⟩ := branch_taken test item other tokens
  have refuses : Refuses branch tokens := by
    rcases taken with rfl | rfl
    · exact left
    · exact right
  intro failure failed placed
  have here : branch tokens = .error failure := (agrees tokens Iff.rfl).symm.trans failed
  obtain ⟨earlier, gap, found, later, same, blames, incomplete, again⟩ := refuses failure here placed
  obtain ⟨stays, front⟩ := peeks_stay peeks tokens earlier gap later found same
  refine ⟨earlier, gap, found, later, same, blames, ?_, fun rest => (agrees _ (stays rest)).trans (again rest)⟩
  by_cases none : earlier ++ gap = []
  · dsimp only
    rw [none, if_neg peeks.nothing]
    exact nothing
  · dsimp only
    rw [agrees _ (front none)]
    exact incomplete

-- Both branches need a token.
theorem takes_peek {α : Type} (item other : Reader α) (tokens : Tokens) (left : Takes item tokens)
    (right : Takes other tokens) (cut : ∀ read, item [] ≠ .ok read) (cut' : ∀ read, other [] ≠ .ok read) :
    Takes (fun tokens => if test tokens then item tokens else other tokens) tokens := by
  obtain ⟨branch, taken, agrees⟩ := branch_taken test item other tokens
  have takes : Takes branch tokens ∧ ∀ read, branch [] ≠ .ok read := by
    rcases taken with rfl | rfl
    · exact ⟨left, cut⟩
    · exact ⟨right, cut'⟩
  intro value rest run
  have here : branch tokens = .ok (value, rest) := (agrees tokens Iff.rfl).symm.trans run
  obtain ⟨used, rfl, solid, again⟩ := takes.1 value rest here
  have some : used ≠ [] := by
    rintro rfl
    exact takes.2 _ (again [])
  exact ⟨used, rfl, solid, fun others => (agrees _ (peeks_front peeks used others rest some)).trans (again others)⟩

end

/-! The strategies. -/

theorem closed_cut {α β : Type} (item : Reader α) (count : Nat) (expected needed : String) (result : List α → β)
    (cut : item [] = .error (.truncated needed)) :
    Incomplete (readTimes count item [] >>= fun read =>
      expect .closing expected read.2 >>= fun rest => .ok (result read.1, rest)) ∧
    ∀ read, (readTimes count item [] >>= fun read =>
      expect .closing expected read.2 >>= fun rest => .ok (result read.1, rest)) ≠ .ok read := by
  cases count with
  | zero => exact ⟨.inr ⟨expected, rfl⟩, fun read run => by cases run⟩
  | succ count =>
      rw [readTimes, readAfter, cut]
      exact ⟨.inr ⟨needed, rfl⟩, fun read run => by cases run⟩

theorem read_strategies_careful (players : Nat) : Careful (readStrategies players) := by
  refine expect_bind_careful .opening "strategy block" Token.noConfusion _ ?_
  have named := closed_careful (read_times_careful (read_text_list_careful "strategy names") players)
    "end of strategy block" Strategies.named
  have counted := closed_careful (read_times_careful (read_count_careful "strategy count" (.inl rfl)) players)
    "end of strategy block" Strategies.counted
  obtain ⟨-, noNames⟩ := closed_cut (readTextList "strategy names") players "end of strategy block" "strategy names"
    Strategies.named rfl
  obtain ⟨nothing, noCounts⟩ := closed_cut (readCount "strategy count") players "end of strategy block" "strategy count"
    Strategies.counted rfl
  exact {
    takes := fun tokens =>
      takes_peek opening_peeks _ _ tokens (named.takes tokens) (counted.takes tokens) noNames noCounts
    refuses := fun tokens =>
      refuses_peek opening_peeks _ _ tokens (named.refuses tokens) (counted.refuses tokens) nothing }

/-! The outcomes. -/

def outcomeBlock (players : Nat) (read : List (String × List Rat)) : Reader (List (String × List Rat)) := fun tokens =>
  readOutcomes players read tokens >>= fun listed =>
    expect .closing "end of outcome block" listed.2 >>= fun rest => .ok (listed.1, rest)

theorem outcome_block_eq (players : Nat) (read : List (String × List Rat)) (tokens : Tokens) :
    outcomeBlock players read tokens =
      if tokens.head?.map Located.token = some .closing then
        expect .closing "end of outcome block" tokens >>= fun rest => .ok (read.reverse, rest)
      else readOutcome players tokens >>= fun first => outcomeBlock players (first.1 :: read) first.2 := by
  rw [outcomeBlock]
  by_cases closed : tokens.head?.map Located.token = some .closing
  · rw [if_pos closed, readOutcomes, if_pos closed, ok_bind]
  · rw [if_neg closed]
    cases first : readOutcome players tokens with
    | error failure => rw [read_outcomes_fails players read tokens failure closed first]; rfl
    | ok taken =>
        obtain ⟨outcome, rest⟩ := taken
        rw [read_outcomes_step players read tokens rest outcome first, ok_bind, outcomeBlock]

-- The induction is on the number of tokens: an outcome leaves fewer.
theorem outcome_block_careful (players : Nat) (read : List (String × List Rat)) :
    Careful (outcomeBlock players read) := by
  have each (size : Nat) : ∀ tokens : Tokens, tokens.length < size → ∀ read,
      Takes (outcomeBlock players read) tokens ∧ Refuses (outcomeBlock players read) tokens := by
    induction size with
    | zero => exact fun tokens small => absurd small (Nat.not_lt_zero _)
    | succ size ih =>
        intro tokens small read
        have careful := read_outcome_careful players
        have later (outcome : String × List Rat) (rest : Tokens) (first : readOutcome players tokens = .ok (outcome, rest)) :
            Takes (outcomeBlock players (outcome :: read)) rest ∧
              Refuses (outcomeBlock players (outcome :: read)) rest := by
          have shorter := read_outcome_length first
          exact ih rest (by omega) (outcome :: read)
        have closing := expect_bind_careful .closing "end of outcome block" Token.noConfusion _ (read_careful read.reverse)
        have takes := takes_bind careful (fun first => outcomeBlock players (first.1 :: read) first.2) tokens
          fun outcome rest first => (later outcome rest first).1
        have refuses := refuses_bind careful (fun first => outcomeBlock players (first.1 :: read) first.2) tokens
          fun outcome rest first => (later outcome rest first).2
        rw [funext (outcome_block_eq players read)]
        refine ⟨takes_peek closing_peeks _ _ tokens (closing.takes tokens) takes ?_ ?_,
          refuses_peek closing_peeks _ _ tokens (closing.refuses tokens) refuses (.inr ⟨"outcome", rfl⟩)⟩
        · exact fun result run => by cases run
        · exact fun result run => by cases run
  exact {
    takes := fun tokens => (each (tokens.length + 1) tokens (Nat.lt_succ_self _) read).1
    refuses := fun tokens => (each (tokens.length + 1) tokens (Nat.lt_succ_self _) read).2 }

/-! Whole files. -/

-- What is left when the content is read.
def ending (build : Content → Description) (read : Content × Tokens) : Except ReadError Description :=
  match read.2 with
  | [] => .ok (build read.1)
  | found :: _ => unexpected "end of input" found

theorem ending_refuses (build : Content → Description) (content : Content) (tokens : Tokens) :
    Refuses (fun rest => ending build (content, rest)) tokens := by
  cases tokens with
  | nil => exact refuses_read _ [] (build content) rfl
  | cons found rest => exact refuses_found _ "end of input" found rest (.inl ⟨build content, rfl⟩) fun _ => rfl

theorem content_refuses (dims : Dimensions) (cells : Nat) (build : Content → Description) (tokens : Tokens) :
    Refuses (fun tokens => readContent dims cells tokens >>= ending build) tokens := by
  have same (tokens : Tokens) : readContent dims cells tokens >>= ending build =
      if nextIsOpening tokens = true then
        expect .opening "outcome block" tokens >>= fun rest => outcomeBlock dims.length [] rest >>= fun listed =>
          readTimes cells (readId listed.1.length) listed.2 >>= fun ids =>
            ending build (.outcomes listed.1 ids.1, ids.2)
      else readTimes (cells * dims.length) (readNumber "payoff") tokens >>= fun values =>
        ending build (.payoffs values.1, values.2) := by
    rw [readContent]
    split
    · simp only [outcomeBlock, bind_assoc, ok_bind]
    · simp only [bind_assoc, ok_bind]
  rw [funext same]
  refine refuses_peek opening_peeks _ _ tokens ?_ ?_ ?_
  · refine expect_bind_refuses .opening "outcome block" Token.noConfusion _ (fun tokens => ?_) tokens
    refine refuses_bind (outcome_block_careful dims.length []) _ tokens fun listed rest _ => ?_
    refine refuses_bind (read_times_careful (read_id_careful listed.length) cells) _ rest fun ids rest _ => ?_
    exact ending_refuses build (.outcomes listed ids) rest
  · refine refuses_bind (read_times_careful (read_number_careful "payoff") (cells * dims.length)) _ tokens
      fun values rest _ => ?_
    exact ending_refuses build (.payoffs values) rest
  · cases cells * dims.length with
    | zero => exact .inl ⟨_, rfl⟩
    | succ count => exact .inr ⟨"payoff", rfl⟩

theorem comment_peeks : Peeks fun tokens => ∃ content, tokens.head?.map Located.token = some (.text content) where
  first _ _ _ := Iff.rfl
  nothing := by
    rintro ⟨content, same⟩
    cases same

theorem comment_absent (tokens : Tokens) (absent : ¬ ∃ content, tokens.head?.map Located.token = some (.text content)) :
    readComment tokens = ("", tokens) := by
  refine read_comment_before [] "" tokens .absent fun text same => absent ⟨text, ?_⟩
  rw [← List.head?_map]
  exact same

-- A comment is taken if there is one, and else the next reader starts with the same tokens.
theorem comment_refuses {β : Type} (next : String × Tokens → Except ReadError β)
    (later : ∀ comment tokens, Refuses (fun rest => next (comment, rest)) tokens) (tokens : Tokens) :
    Refuses (fun tokens => next (readComment tokens)) tokens := by
  by_cases present : ∃ content, tokens.head?.map Located.token = some (.text content)
  · obtain ⟨content, here⟩ := present
    obtain ⟨found, rest, rfl⟩ : ∃ found rest, tokens = found :: rest := by
      cases tokens with
      | nil => cases here
      | cons found rest => exact ⟨found, rest, rfl⟩
    have text : found.token = .text content := Option.some.inj here
    refine refuses_after [found] (solid_single found ?_) _ (fun rest => next (content, rest)) (fun other => ?_) rest
      (later content rest)
    · rw [text]
      exact Token.noConfusion
    · rw [List.singleton_append, read_comment_reads found content other text]
  · have absent := comment_absent tokens present
    intro failure failed placed
    dsimp only at failed
    rw [absent] at failed
    obtain ⟨earlier, gap, found, after, same, blames, incomplete, again⟩ := later "" tokens failure failed placed
    obtain ⟨stays, front⟩ := peeks_stay comment_peeks tokens earlier gap after found same
    refine ⟨earlier, gap, found, after, same, blames, ?_, fun rest => ?_⟩
    · have notFront : ¬ ∃ content, (earlier ++ gap).head?.map Located.token = some (.text content) := by
        by_cases none : earlier ++ gap = []
        · rw [none]
          exact comment_peeks.nothing
        · exact fun yes => present ((front none).mp yes)
      dsimp only
      rw [comment_absent _ notFront]
      exact incomplete
    · dsimp only
      rw [comment_absent _ fun yes => present ((stays rest).mp yes)]
      exact again rest

-- A header is refused as a whole.
theorem header_failure (tokens : Tokens) (failure : ReadError) (failed : readHeader tokens = .error failure) :
    ¬ Placed failure := by
  intro placed
  rcases tokens with - | ⟨magic, - | ⟨version, - | ⟨field, rest⟩⟩⟩
  · cases failed
    cases placed
  · cases failed
    cases placed
  · cases failed
    cases placed
  · dsimp only [readHeader, next, ok_bind] at failed
    split at failed
    · cases failed
    · cases failed
      cases placed

theorem header_careful : Careful (bare readHeader) where
  takes := by
    intro tokens value rest run
    obtain ⟨used, field, rfl, same, kind⟩ := (read_header_iff tokens rest).mp ((bare_eq_ok _ _ _ _).mp run)
    have solid := solid_of_last used [.word "NFG", .number 1] (.word field) Token.noConfusion same
    refine ⟨used, rfl, solid, fun other => ?_⟩
    exact (bare_eq_ok _ _ _ _).mpr ((read_header_iff _ other).mpr ⟨used, field, rfl, same, kind⟩)
  refuses := by
    intro tokens
    refine refuses_never _ tokens fun failure failed placed => ?_
    exact header_failure tokens failure ((bare_eq_error _ _ _).mp failed) placed

theorem admit_cells_failure (dims : Dimensions) (failure : ReadError) (failed : admitCells dims = .error failure) :
    ¬ Placed failure := by
  intro placed
  rw [admitCells] at failed
  split at failed
  · cases failed
    cases placed
  · split at failed
    · cases failed
      cases placed
    · split at failed
      · cases failed
        cases placed
      · cases failed

theorem description_refuses (tokens : Tokens) : Refuses readDescription tokens := by
  have same (tokens : Tokens) : readDescription tokens = bare readHeader tokens >>= fun read =>
      readText "title" read.2 >>= fun title => readTextList "player names" title.2 >>= fun names =>
        readStrategies names.1.length names.2 >>= fun strategies =>
          admitCells strategies.1.dimensions >>= fun cells =>
            readContent strategies.1.dimensions cells (readComment strategies.2).2 >>=
              ending fun content => {
                title := title.1
                comment := (readComment strategies.2).1
                players := List.zipWith Player.mk names.1 strategies.1.names
                content } := by
    rw [readDescription, bare_bind]
    rfl
  rw [funext same]
  refine refuses_bind header_careful _ tokens fun _ tokens _ => ?_
  refine refuses_bind (read_text_careful "title") _ tokens fun title tokens _ => ?_
  refine refuses_bind (read_text_list_careful "player names") _ tokens fun names tokens _ => ?_
  refine refuses_bind (read_strategies_careful names.length) _ tokens fun strategies tokens _ => ?_
  dsimp only
  cases admitted : admitCells strategies.dimensions with
  | error refused =>
      refine refuses_never _ tokens fun failure failed => ?_
      cases failed
      exact admit_cells_failure _ refused admitted
  | ok cells =>
      exact comment_refuses (fun read => readContent strategies.dimensions cells read.2 >>= ending fun content => {
        title, comment := read.1, players := List.zipWith Player.mk names strategies.names, content })
        (fun comment tokens => content_refuses strategies.dimensions cells _ tokens) tokens

end NormalForm.File
