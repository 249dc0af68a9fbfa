import Mathlib.Data.List.TakeWhile
import NormalForm.Proofs.File.Lines

/-!
What readers blame. A reader that takes tokens takes them whatever follows, and one that refuses a token refuses
it whatever follows: in front of that token nothing is wrong. The line of a failure is that of the token, but a
count that is refused is said to stand where the commas directly before it start.
-/

set_option autoImplicit false

namespace NormalForm.File

abbrev Reader (α : Type) := Tokens → Except ReadError (α × Tokens)

-- Failures that say where something is wrong.
inductive Placed : ReadError → Prop where
  | unexpected (line : Nat) (expected found : String) : Placed (.unexpected line expected found)
  | badNumber (line : Nat) (text : String) : Placed (.badNumber line text)
  | unterminatedString (line : Nat) : Placed (.unterminatedString line)
  | unknownOutcome (line id : Nat) : Placed (.unknownOutcome line id)

-- A failure with the token that it blames and the line that it gives.
inductive Accuses : ReadError → Token → Nat → Prop where
  | unexpected (line : Nat) (expected : String) (token : Token) :
      Accuses (.unexpected line expected token.describe) token line
  | unknownOutcome (line id : Nat) : Accuses (.unknownOutcome line id) (.number id) line

-- Failures of numbers that are to be counts.
inductive OfCount : ReadError → Token → Prop where
  | unexpected (line : Nat) (expected found : String) (value : Rat)
      (counts : expected = "strategy count" ∨ expected = "outcome id") :
      OfCount (.unexpected line expected found) (.number value)
  | unknownOutcome (line id : Nat) (token : Token) : OfCount (.unknownOutcome line id) token

-- The last token is no comma.
def Solid (tokens : Tokens) : Prop := ∀ last ∈ tokens.getLast?, last.token ≠ .comma

-- Nothing is wrong so far.
def Incomplete {α : Type} (outcome : Except ReadError α) : Prop :=
  (∃ value, outcome = .ok value) ∨ ∃ expected, outcome = .error (.truncated expected)

-- The failure blames a token after earlier ones and a gap. The gap holds the commas before a count that is refused;
-- it is empty for any other failure.
structure Blames (failure : ReadError) (earlier gap : Tokens) (found : Located) : Prop where
  accuses : Accuses failure found.token (lineOf (gap ++ [found]))
  commas : ∀ comma ∈ gap, comma.token = .comma
  counts : gap ≠ [] → OfCount failure found.token
  solid : OfCount failure found.token → Solid earlier

def Takes {α : Type} (item : Reader α) (tokens : Tokens) : Prop :=
  ∀ value rest, item tokens = .ok (value, rest) →
    ∃ used, tokens = used ++ rest ∧ Solid used ∧ ∀ other, item (used ++ other) = .ok (value, other)

def Refuses {β : Type} (item : Tokens → Except ReadError β) (tokens : Tokens) : Prop :=
  ∀ failure, item tokens = .error failure → Placed failure → ∃ earlier gap found later,
    tokens = earlier ++ (gap ++ found :: later) ∧ Blames failure earlier gap found ∧
      Incomplete (item (earlier ++ gap)) ∧ ∀ rest, item (earlier ++ (gap ++ found :: rest)) = .error failure

structure Careful {α : Type} (item : Reader α) : Prop where
  takes : ∀ tokens, Takes item tokens
  refuses : ∀ tokens, Refuses item tokens

/-! One reader after another. -/

theorem solid_nil : Solid [] := by
  intro last same
  cases same

theorem solid_single (found : Located) (other : found.token ≠ .comma) : Solid [found] := by
  intro last same
  obtain rfl : found = last := Option.some.inj same
  exact other

theorem solid_of_last (used : Tokens) (tokens : List Token) (last : Token) (other : last ≠ .comma)
    (same : used.map Located.token = tokens ++ [last]) : Solid used := by
  intro found ends
  have token := congrArg List.getLast? same
  rw [List.getLast?_map, ends, List.getLast?_concat] at token
  rw [Option.some.inj token]
  exact other

theorem solid_append (front back : Tokens) (first : Solid front) (second : Solid back) : Solid (front ++ back) := by
  intro last same
  rw [List.getLast?_append, Option.mem_def, Option.or_eq_some_iff] at same
  rcases same with here | ⟨-, here⟩
  · exact second last here
  · exact first last here

-- Once some tokens are taken, what is refused after them is refused.
theorem refuses_after {β : Type} (used : Tokens) (solid : Solid used) (item next : Tokens → Except ReadError β)
    (same : ∀ other, item (used ++ other) = next other) (rest : Tokens) (refuses : Refuses next rest) :
    Refuses item (used ++ rest) := by
  intro failure failed placed
  rw [same] at failed
  obtain ⟨earlier, gap, found, later, rfl, blames, incomplete, again⟩ := refuses failure failed placed
  refine ⟨used ++ earlier, gap, found, later, (List.append_assoc _ _ _).symm, ?_, ?_, fun others => ?_⟩
  · exact { blames with solid := fun count => solid_append used earlier solid (blames.solid count) }
  · rw [List.append_assoc, same]
    exact incomplete
  · rw [List.append_assoc, same]
    exact again others

theorem refuses_map {α β : Type} (item : Tokens → Except ReadError α) (f : α → β) (tokens : Tokens)
    (refuses : Refuses item tokens) : Refuses (fun tokens => item tokens >>= fun read => .ok (f read)) tokens := by
  intro failure failed placed
  cases read : item tokens with
  | ok value =>
      dsimp only at failed
      rw [read] at failed
      cases failed
  | error other =>
      dsimp only at failed
      rw [read] at failed
      cases failed
      obtain ⟨earlier, gap, found, later, rfl, blames, incomplete, again⟩ := refuses failure read placed
      dsimp only
      refine ⟨earlier, gap, found, later, rfl, blames, ?_, fun rest => by rw [again rest]; rfl⟩
      rcases incomplete with ⟨value, whole⟩ | ⟨expected, cut⟩
      · exact .inl ⟨f value, by rw [whole, ok_bind]⟩
      · exact .inr ⟨expected, by rw [cut]; rfl⟩

section

variable {α β : Type} {first : Reader α}

-- The failure of a reader is that of whatever starts with it.
theorem refuses_first (careful : Careful first) (next : Tokens → α × Tokens → Except ReadError β) (tokens : Tokens)
    (failure : ReadError) (failed : first tokens = .error failure) (placed : Placed failure) :
    ∃ earlier gap found later, tokens = earlier ++ (gap ++ found :: later) ∧ Blames failure earlier gap found ∧
      Incomplete (first (earlier ++ gap) >>= next (earlier ++ gap)) ∧ ∀ rest,
        first (earlier ++ (gap ++ found :: rest)) >>= next (earlier ++ (gap ++ found :: rest)) = .error failure := by
  obtain ⟨earlier, gap, found, later, rfl, blames, incomplete, again⟩ := careful.refuses tokens failure failed placed
  refine ⟨earlier, gap, found, later, rfl, blames, ?_, fun rest => by rw [again rest]; rfl⟩
  rcases incomplete with ⟨⟨value, rest⟩, read⟩ | ⟨expected, cut⟩
  · -- what it takes from the front it would take here too
    obtain ⟨used, split, -, still⟩ := careful.takes (earlier ++ gap) value rest read
    have taken := still (rest ++ found :: later)
    rw [← List.append_assoc, ← split, List.append_assoc, failed] at taken
    cases taken
  · exact .inr ⟨expected, by rw [cut]; rfl⟩

theorem refuses_bind (careful : Careful first) (next : α × Tokens → Except ReadError β) (tokens : Tokens)
    (later : ∀ value rest, first tokens = .ok (value, rest) → Refuses (fun rest => next (value, rest)) rest) :
    Refuses (fun tokens => first tokens >>= next) tokens := by
  intro failure refused placed
  cases read : first tokens with
  | error other =>
      dsimp only at refused
      rw [read] at refused
      cases refused
      exact refuses_first careful (fun _ => next) tokens failure read placed
  | ok taken =>
      obtain ⟨value, rest⟩ := taken
      obtain ⟨used, rfl, solid, again⟩ := careful.takes tokens value rest read
      have same (other : Tokens) : first (used ++ other) >>= next = next (value, other) := by rw [again, ok_bind]
      exact refuses_after used solid (fun tokens => first tokens >>= next) (fun rest => next (value, rest)) same rest
        (later value rest read) failure refused placed

theorem takes_bind (careful : Careful first) (next : α × Tokens → Except ReadError (β × Tokens)) (tokens : Tokens)
    (later : ∀ value rest, first tokens = .ok (value, rest) → Takes (fun rest => next (value, rest)) rest) :
    Takes (fun tokens => first tokens >>= next) tokens := by
  intro result rest run
  obtain ⟨⟨value, middle⟩, read, finish⟩ := bind_eq_ok.mp run
  obtain ⟨used, rfl, solid, again⟩ := careful.takes tokens value middle read
  obtain ⟨others, rfl, solid', further⟩ := later value middle read result rest finish
  refine ⟨used ++ others, (List.append_assoc _ _ _).symm, solid_append used others solid solid', fun other => ?_⟩
  rw [List.append_assoc]
  dsimp only
  rw [again, ok_bind]
  exact further other

theorem careful_bind (careful : Careful first) (next : α × Tokens → Except ReadError (β × Tokens))
    (later : ∀ value, Careful fun rest => next (value, rest)) : Careful fun tokens => first tokens >>= next where
  takes tokens := takes_bind careful next tokens fun value rest _ => (later value).takes rest
  refuses tokens := refuses_bind careful next tokens fun value rest _ => (later value).refuses rest

end

/-! Single tokens. -/

-- A reader of tokens that mean nothing on their own.
def bare (item : Tokens → Except ReadError Tokens) : Reader Unit := fun tokens => (item tokens).map (Prod.mk ())

theorem bare_bind {β : Type} (item : Tokens → Except ReadError Tokens) (tokens : Tokens)
    (next : Tokens → Except ReadError β) : item tokens >>= next = bare item tokens >>= fun read => next read.2 := by
  rw [bare]
  cases item tokens with
  | error failure => rfl
  | ok rest => rfl

theorem bare_eq_ok (item : Tokens → Except ReadError Tokens) (tokens rest : Tokens) (value : Unit) :
    bare item tokens = .ok (value, rest) ↔ item tokens = .ok rest := by
  rw [bare]
  cases item tokens with
  | error failure => simp [Except.map]
  | ok after => simp [Except.map]

theorem bare_eq_error (item : Tokens → Except ReadError Tokens) (tokens : Tokens) (failure : ReadError) :
    bare item tokens = .error failure ↔ item tokens = .error failure := by
  rw [bare]
  cases item tokens with
  | error other => simp [Except.map]
  | ok after => simp [Except.map]

theorem unexpected_blames (expected : String) (earlier : Tokens) (found : Located)
    (solid : OfCount (.unexpected found.line expected found.token.describe) found.token → Solid earlier) :
    Blames (.unexpected found.line expected found.token.describe) earlier [] found where
  accuses := .unexpected found.line expected found.token
  commas := List.forall_mem_nil _
  counts := fun some => absurd rfl some
  solid := solid

-- A token that is refused on its own.
theorem refuses_found {β : Type} (item : Tokens → Except ReadError β) (expected : String) (found : Located)
    (later : Tokens) (nothing : Incomplete (item []))
    (refused : ∀ rest, item (found :: rest) = unexpected expected found) : Refuses item (found :: later) := by
  intro failure failed placed
  rw [refused] at failed
  cases failed
  exact ⟨[], [], found, later, rfl, unexpected_blames expected [] found fun _ => solid_nil, nothing, refused⟩

theorem refuses_never {β : Type} (item : Tokens → Except ReadError β) (tokens : Tokens)
    (never : ∀ failure, item tokens = .error failure → ¬ Placed failure) : Refuses item tokens :=
  fun failure failed placed => absurd placed (never failure failed)

theorem truncated_not_placed (expected : String) : ¬ Placed (.truncated expected) := by
  intro placed
  cases placed

theorem refuses_truncated {β : Type} (item : Tokens → Except ReadError β) (tokens : Tokens) (expected : String)
    (cut : item tokens = .error (.truncated expected)) : Refuses item tokens := by
  refine refuses_never item tokens fun failure failed => ?_
  cases cut.symm.trans failed
  exact truncated_not_placed expected

theorem refuses_read {β : Type} (item : Tokens → Except ReadError β) (tokens : Tokens) (value : β)
    (read : item tokens = .ok value) : Refuses item tokens := by
  refine refuses_never item tokens fun failure failed => ?_
  cases read.symm.trans failed

theorem expect_careful (token : Token) (expected : String) (solid : token ≠ .comma) :
    Careful (bare (expect token expected)) where
  takes := by
    intro tokens value rest run
    obtain ⟨found, rfl, here⟩ := (expect_iff token expected tokens rest).mp ((bare_eq_ok _ _ _ _).mp run)
    refine ⟨[found], rfl, solid_single found (here ▸ solid), fun other => ?_⟩
    exact (bare_eq_ok _ _ _ _).mpr (expect_reads token expected found other here)
  refuses := by
    intro tokens
    cases tokens with
    | nil => exact refuses_truncated _ [] expected rfl
    | cons found rest =>
        by_cases here : found.token = token
        · have read := (bare_eq_ok _ _ _ ()).mpr (expect_reads token expected found rest here)
          exact refuses_read _ _ ((), rest) read
        · refine refuses_found _ expected found rest (.inr ⟨expected, rfl⟩) fun rest => ?_
          rw [bare, expect, next, ok_bind]
          dsimp only
          rw [if_neg here]
          rfl

theorem read_text_careful (expected : String) : Careful (readText expected) where
  takes := by
    intro tokens content rest run
    obtain ⟨found, rfl, here⟩ := (read_text_iff expected content tokens rest).mp run
    refine ⟨[found], rfl, solid_single found ?_, fun other => read_text_reads expected content found other here⟩
    rw [here]
    exact Token.noConfusion
  refuses := by
    intro tokens
    cases tokens with
    | nil => exact refuses_truncated _ [] expected rfl
    | cons found rest =>
        obtain ⟨token, line⟩ := found
        cases token with
        | text content => exact refuses_read _ _ (content, rest) rfl
        | _ => exact refuses_found _ expected _ rest (.inr ⟨expected, rfl⟩) fun _ => rfl

/-! Numbers. -/

theorem amount_solid (used : Tokens) (value : Rat) (amount : Amount (used.map Located.token) value) : Solid used := by
  obtain ⟨commas, same⟩ := amount
  exact solid_of_last used _ (.number value) Token.noConfusion same

-- A reader takes the tokens of what it recognises.
theorem takes_recognised {α : Type} {item : Reader α} {Shape : List Token → α → Prop} (law : Recognises item Shape)
    (solid : ∀ used value, Shape (used.map Located.token) value → Solid used) (tokens : Tokens) : Takes item tokens := by
  intro value rest run
  obtain ⟨used, split, shape⟩ := law.shaped tokens value rest run
  exact ⟨used, split, solid used value shape, fun other => law.reads _ value shape used other rfl⟩

theorem commas_skipped (gap rest : Tokens) (commas : ∀ comma ∈ gap, comma.token = .comma) :
    skipCommas (gap ++ rest) = skipCommas rest := by
  refine List.dropWhile_append_of_pos fun comma member => ?_
  rw [commas comma member]
  rfl

theorem found_kept (found : Located) (rest : Tokens) (other : found.token ≠ .comma) :
    skipCommas (found :: rest) = found :: rest :=
  List.dropWhile_cons_of_neg (by simpa using other)

theorem gap_split (tokens : Tokens) : ∃ gap rest, tokens = gap ++ rest ∧ (∀ comma ∈ gap, comma.token = .comma) ∧
    ∀ found ∈ rest.head?, found.token ≠ .comma := by
  refine ⟨tokens.takeWhile fun found => found.token == .comma, skipCommas tokens,
    List.takeWhile_append_dropWhile.symm, fun comma member => ?_, fun found first => ?_⟩
  · simpa using List.mem_takeWhile_imp member
  · have stops := List.head?_dropWhile_not (fun found : Located => found.token == .comma) tokens
    rw [Option.mem_def, skipCommas] at first
    rw [first] at stops
    simpa using stops

theorem read_number_gap (expected : String) (gap rest : Tokens) (commas : ∀ comma ∈ gap, comma.token = .comma) :
    readNumber expected (gap ++ rest) = readNumber expected rest := by
  rw [readNumber, commas_skipped gap rest commas, readNumber]

-- What stands in the place of a number is refused after the commas.
theorem read_number_refuses (expected : String) (gap later : Tokens) (found : Located)
    (commas : ∀ comma ∈ gap, comma.token = .comma) (other : found.token ≠ .comma)
    (noNumber : ∀ value, found.token ≠ .number value) : Refuses (readNumber expected) (gap ++ found :: later) := by
  have refused (rest : Tokens) : readNumber expected (gap ++ found :: rest) = unexpected expected found := by
    rw [read_number_gap expected gap _ commas, readNumber, found_kept found rest other, next, ok_bind]
    dsimp only
    split
    · rename_i value same
      exact absurd same (noNumber value)
    · rfl
  intro failure failed _
  rw [refused] at failed
  cases failed
  have cut : readNumber expected (gap ++ []) = .error (.truncated expected) := by
    rw [read_number_gap expected gap [] commas]
    rfl
  refine ⟨gap, [], found, later, rfl, unexpected_blames expected gap found fun count => ?_, .inr ⟨expected, cut⟩, refused⟩
  generalize same : found.token = token at count
  cases count with
  | unexpected _ _ _ value => exact absurd same (noNumber value)

theorem read_number_careful (expected : String) : Careful (readNumber expected) where
  takes := takes_recognised (read_number_recognises expected) amount_solid
  refuses := by
    intro tokens
    obtain ⟨gap, rest, rfl, commas, stops⟩ := gap_split tokens
    cases rest with
    | nil =>
        refine refuses_truncated _ _ expected ?_
        rw [read_number_gap expected gap [] commas]
        rfl
    | cons found later =>
        by_cases number : ∃ value, found.token = .number value
        · obtain ⟨value, same⟩ := number
          refine refuses_read _ _ (value, later) ?_
          rw [read_number_gap expected gap _ commas]
          exact read_number_reads expected value [found] later (congrArg List.singleton same)
        · exact read_number_refuses expected gap later found commas (stops found rfl) fun value same =>
            number ⟨value, same⟩

/-! Counts. -/

theorem line_of_gap (gap rest : Tokens) (found : Located) : lineOf (gap ++ found :: rest) = lineOf (gap ++ [found]) := by
  cases gap with
  | nil => rfl
  | cons comma gap => rfl

-- A number with the commas before it.
theorem amount_gap (used : Tokens) (value : Rat) (amount : Amount (used.map Located.token) value) :
    ∃ gap found, used = gap ++ [found] ∧ (∀ comma ∈ gap, comma.token = .comma) ∧ found.token = .number value := by
  obtain ⟨commas, same⟩ := amount
  obtain ⟨gap, rest, rfl, before, number⟩ := List.map_eq_append_iff.mp same
  obtain ⟨found, rfl, token⟩ := List.map_eq_singleton_iff.mp number
  refine ⟨gap, found, rfl, fun comma member => ?_, token⟩
  have listed := List.mem_map_of_mem (f := Located.token) member
  rw [before] at listed
  exact List.eq_of_mem_replicate listed

-- A reader of numbers whose values are checked. A failure of the check gives the line where the commas start.
def gauged {α β : Type} (inner : Reader α) (check : Nat → α → Except ReadError β) : Reader β := fun tokens =>
  inner tokens >>= fun read => (check (lineOf tokens) read.1).map fun value => (value, read.2)

section

variable {α β : Type} {inner : Reader α} {Shape : List Token → α → Prop}

theorem gauged_refuses (careful : Careful inner) (law : Recognises inner Shape) (number : α → Rat)
    (amount : ∀ tokens value, Shape tokens value → Amount tokens (number value)) (check : Nat → α → Except ReadError β)
    (cut : ∀ gap : Tokens, (∀ comma ∈ gap, comma.token = .comma) → Incomplete (gauged inner check gap))
    (blames : ∀ line value failure, check line value = .error failure →
      Accuses failure (.number (number value)) line ∧ OfCount failure (.number (number value)))
    (tokens : Tokens) : Refuses (gauged inner check) tokens := by
  intro failure failed placed
  cases read : inner tokens with
  | error other =>
      rw [gauged, read] at failed
      cases failed
      exact refuses_first careful (fun tokens read => (check (lineOf tokens) read.1).map fun value => (value, read.2))
        tokens failure read placed
  | ok taken =>
      obtain ⟨value, rest⟩ := taken
      obtain ⟨used, rfl, shape⟩ := law.shaped tokens value rest read
      obtain ⟨gap, found, rfl, commas, same⟩ := amount_gap used (number value) (amount _ value shape)
      have reads (rest : Tokens) : gauged inner check (gap ++ found :: rest) =
          (check (lineOf (gap ++ [found])) value).map fun value => (value, rest) := by
        have here := law.reads _ value shape (gap ++ [found]) rest rfl
        rw [List.append_assoc, List.singleton_append] at here
        rw [gauged, here, ok_bind, line_of_gap]
      rw [List.append_assoc, List.singleton_append, reads] at failed
      cases checked : check (lineOf (gap ++ [found])) value with
      | ok result =>
          rw [checked] at failed
          cases failed
      | error other =>
          rw [checked] at failed
          cases failed
          obtain ⟨accuses, count⟩ := blames _ value failure checked
          refine ⟨[], gap, found, rest, List.append_assoc gap [found] rest, ?_, cut gap commas, fun others => ?_⟩
          · rw [← same] at accuses count
            exact { accuses, commas, counts := fun _ => count, solid := fun _ => solid_nil }
          · rw [List.nil_append, reads, checked]
            rfl

end

def countAt (expected : String) (line : Nat) (value : Rat) : Except ReadError Nat :=
  if value.den = 1 ∧ 0 ≤ value.num ∧ Word.fits value.num.toNat then .ok value.num.toNat
  else unexpected expected ⟨.number value, line⟩

def idAt (outcomes line id : Nat) : Except ReadError Nat :=
  if id ≤ outcomes then .ok id else .error (.unknownOutcome line id)

theorem read_count_eq (expected : String) : readCount expected = gauged (readNumber expected) (countAt expected) := by
  funext tokens
  rw [readCount, gauged]
  refine congrArg _ (funext fun read => ?_)
  dsimp only
  rw [countAt]
  split
  · rfl
  · rfl

theorem read_id_eq (outcomes : Nat) : readId outcomes = gauged (readCount "outcome id") (idAt outcomes) := by
  funext tokens
  rw [readId, gauged]
  refine congrArg _ (funext fun read => ?_)
  dsimp only
  rw [idAt]
  split
  · rfl
  · rfl

theorem read_count_commas (expected : String) (gap : Tokens) (commas : ∀ comma ∈ gap, comma.token = .comma) :
    readCount expected gap = .error (.truncated expected) := by
  have cut := read_number_gap expected gap [] commas
  rw [List.append_nil] at cut
  rw [readCount, cut]
  rfl

theorem read_count_careful (expected : String) (counts : expected = "strategy count" ∨ expected = "outcome id") :
    Careful (readCount expected) where
  takes := takes_recognised (read_count_recognises expected) fun used count shape => amount_solid used count shape.1
  refuses := by
    rw [read_count_eq]
    refine gauged_refuses (read_number_careful expected) (read_number_recognises expected) id (fun _ _ amount => amount)
      (countAt expected) (fun gap commas => ?_) fun line value failure failed => ?_
    · rw [← read_count_eq, read_count_commas expected gap commas]
      exact .inr ⟨expected, rfl⟩
    · rw [countAt] at failed
      split at failed
      · cases failed
      · cases failed
        exact ⟨.unexpected line expected (.number value), .unexpected line expected _ value counts⟩

theorem read_id_careful (outcomes : Nat) : Careful (readId outcomes) where
  takes := takes_recognised (read_id_recognises outcomes) fun used id shape => amount_solid used id shape.1.1
  refuses := by
    rw [read_id_eq]
    refine gauged_refuses (read_count_careful "outcome id" (.inr rfl)) (read_count_recognises "outcome id")
      (fun id => (id : Rat)) (fun _ _ count => count.1) (idAt outcomes) (fun gap commas => ?_)
      fun line id failure failed => ?_
    · rw [gauged, read_count_commas "outcome id" gap commas]
      exact .inr ⟨"outcome id", rfl⟩
    · rw [idAt] at failed
      split at failed
      · cases failed
      · cases failed
        exact ⟨.unknownOutcome line id, .unknownOutcome line id _⟩

/-! Lists. -/

theorem expect_bind_careful {α : Type} (token : Token) (expected : String) (solid : token ≠ .comma) (next : Reader α)
    (careful : Careful next) : Careful fun tokens => expect token expected tokens >>= next := by
  simp only [bare_bind]
  exact careful_bind (expect_careful token expected solid) (fun read => next read.2) fun _ => careful

theorem expect_bind_refuses {β : Type} (token : Token) (expected : String) (solid : token ≠ .comma)
    (next : Tokens → Except ReadError β) (refuses : ∀ tokens, Refuses next tokens) (tokens : Tokens) :
    Refuses (fun tokens => expect token expected tokens >>= next) tokens := by
  simp only [bare_bind]
  exact refuses_bind (expect_careful token expected solid) (fun read => next read.2) tokens fun _ rest _ => refuses rest

theorem read_careful {β : Type} (result : β) :
    Careful fun rest : Tokens => (.ok (result, rest) : Except ReadError (β × Tokens)) where
  takes tokens value rest run := by
    cases run
    exact ⟨[], rfl, solid_nil, fun _ => rfl⟩
  refuses tokens := refuses_read _ tokens (result, tokens) rfl

theorem read_texts_careful (expected : String) : Careful (readTexts expected) where
  takes := by
    refine takes_recognised (read_texts_recognises expected) fun used texts same => ?_
    exact solid_of_last used _ .closing Token.noConfusion same
  refuses := by
    intro tokens
    induction tokens with
    | nil => exact refuses_truncated _ [] expected rfl
    | cons first rest ih =>
        obtain ⟨token, line⟩ := first
        cases token with
        | closing => exact refuses_read _ _ ([], rest) rfl
        | text content =>
            have refuses := refuses_map _ (fun read => (content :: read.1, read.2)) rest ih
            refine refuses_after [⟨.text content, line⟩] (solid_single _ Token.noConfusion) _ _ (fun other => ?_) rest refuses
            rw [List.singleton_append, readTexts]
        | _ => exact refuses_found _ expected _ rest (.inr ⟨expected, rfl⟩) fun _ => rfl

theorem read_text_list_careful (expected : String) : Careful (readTextList expected) :=
  expect_bind_careful .opening expected Token.noConfusion (readTexts expected) (read_texts_careful expected)

theorem read_after_careful {α : Type} {item : Reader α} (careful : Careful item) (count : Nat) (read : List α) :
    Careful (readAfter item read count) := by
  induction count generalizing read with
  | zero => exact read_careful read.reverse
  | succ count ih => exact careful_bind careful _ fun value => ih (value :: read)

theorem read_times_careful {α : Type} {item : Reader α} (careful : Careful item) (count : Nat) :
    Careful (readTimes count item) :=
  read_after_careful careful count []

-- A part with the brace that closes it.
theorem closed_careful {α β : Type} {item : Reader α} (careful : Careful item) (expected : String) (result : α → β) :
    Careful fun tokens => item tokens >>= fun read =>
      expect .closing expected read.2 >>= fun rest => .ok (result read.1, rest) :=
  careful_bind careful _ fun value =>
    expect_bind_careful .closing expected Token.noConfusion _ (read_careful (result value))

theorem read_outcome_careful (players : Nat) : Careful (readOutcome players) :=
  expect_bind_careful .opening "outcome" Token.noConfusion _ <|
    careful_bind (read_text_careful "outcome label") _ fun label =>
      closed_careful (read_times_careful (read_number_careful "payoff") players) "end of outcome" (Prod.mk label)

end NormalForm.File
