import NormalForm.Proofs.Decimal.Grammar
import NormalForm.Proofs.File.Lexing
import NormalForm.Proofs.File.Lines

/-!
The layout of a file means nothing. Tokens can be written with any blanks and line breaks between them, as long
as a word or a number does not run into the next one: whatever the layout, the text yields these tokens, and
two layouts are read as the same game or refused for the same reason.
-/

set_option autoImplicit false

namespace NormalForm

namespace File

-- The texts of a token on its own. Any character of quoted text may have a backslash; a number has many numerals.
inductive Spelling : Token → List Char → Prop where
  | opening : Spelling .opening ['{']
  | closing : Spelling .closing ['}']
  | comma : Spelling .comma [',']
  | text (quoted content : List Char) (reads : Quoted quoted content) :
      Spelling (.text (String.ofList content)) ('"' :: (quoted ++ ['"']))
  | word (c : Char) (letters : List Char) (first : Letter c) (parts : ∀ d ∈ letters, WordPart d) :
      Spelling (.word (String.ofList (c :: letters))) (c :: letters)
  | number (numeral : List Char) (value : Rat) (reads : Decimal.numeral? numeral = some value) :
      Spelling (.number value) numeral

-- Words and numbers have no end of their own.
def Token.runsOn : Token → Bool
  | word _ => true
  | number _ => true
  | _ => false

-- Tokens after the one before them, if there is one, each with the blanks in front of it, and blanks at the end.
inductive Follows : Option Token → List Token → List Char → Prop where
  | done (before : Option Token) (gap : List Char) (blank : ∀ c ∈ gap, Text.isBlank c = true) : Follows before [] gap
  | token (before : Option Token) (gap spelled text : List Char) (token : Token) (tokens : List Token)
      (blank : ∀ c ∈ gap, Text.isBlank c = true)
      (apart : ∀ earlier ∈ before, earlier.runsOn → token.runsOn → gap ≠ [])
      (spells : Spelling token spelled) (later : Follows (some token) tokens text) :
      Follows before (token :: tokens) (gap ++ (spelled ++ text))

def Layout (tokens : List Token) (text : String) : Prop := Follows none tokens text.toList

theorem follows_blank (before : Option Token) (c : Char) (blank : Text.isBlank c = true) (spelled text : List Char)
    (token : Token) (tokens : List Token) (spells : Spelling token spelled) (later : Follows (some token) tokens text) :
    Follows before (token :: tokens) (c :: (spelled ++ text)) :=
  .token before [c] spelled text token tokens (List.forall_mem_singleton.mpr blank)
    (fun _ _ _ _ => List.cons_ne_nil c []) spells later

theorem follows_closely (before : Option Token) (spelled text : List Char) (token : Token) (tokens : List Token)
    (apart : ∀ earlier ∈ before, earlier.runsOn → ¬ token.runsOn) (spells : Spelling token spelled)
    (later : Follows (some token) tokens text) : Follows before (token :: tokens) (spelled ++ text) :=
  .token before [] spelled text token tokens (List.forall_mem_nil _)
    (fun earlier known runs on => absurd on (apart earlier known runs)) spells later

-- A backslash before each quote and backslash of the content is one of the spellings.
theorem quoted_escape (content : List Char) : Quoted (Text.escapeChars content) content := by
  induction content with
  | nil => exact .nil
  | cons c rest ih =>
      rw [Text.escapeChars]
      split
      · exact .escaped c _ _ ih
      · rename_i plain
        exact .plain c _ _ (fun quote => plain (.inl quote)) (fun slash => plain (.inr slash)) ih

theorem quote_spells (content : String) : Spelling (.text content) (Text.quote content).toList := by
  have spelled := Spelling.text _ _ (quoted_escape content.toList)
  rw [String.ofList_toList] at spelled
  simpa [Text.quote, Text.escape] using spelled

/-! Where words and numbers end. -/

theorem plain_of_numeric (c : Char) (numeric : Numeric c) : Plain c := (is_number_char_iff c).mp numeric.goes

theorem digit_numeric (c : Char) (digit : Decimal.Digit c) : Numeric c :=
  numeric_of_numeral_char c (Decimal.numeral_char_of_digit c ((Decimal.is_digit_iff c).mpr digit))

theorem word_part_plain (c : Char) (part : WordPart c) : Plain c := by
  rcases part with letter | digit | rfl
  · obtain ⟨solid, noMark, notQuote⟩ := letter_solid c letter
    obtain ⟨notOpening, notClosing, notComma⟩ := (mark_none_iff c).mp noMark
    exact ⟨solid, notOpening, notClosing, notComma, notQuote⟩
  · exact plain_of_numeric c (digit_numeric c digit)
  · exact (is_number_char_iff '_').mp (by decide)

theorem inked_plain (c : Char) (inked : Decimal.Inked c) : Plain c ∧ ¬ Letter c := by
  have marks : ∀ d ∈ ['+', '-', '.', '/', '_'], (isNumberChar d && !isLetter d) = true := List.all_eq_true.mp rfl
  have numberChar : isNumberChar c = true ∧ isLetter c = false := by
    rcases inked with digit | mark
    · exact ⟨(digit_numeric c digit).goes, (digit_numeric c digit).notLetter⟩
    · simpa using marks c mark
  refine ⟨(is_number_char_iff c).mp numberChar.1, fun letter => ?_⟩
  exact Bool.false_ne_true (numberChar.2.symm.trans ((is_letter_iff c).mpr letter))

theorem blank_not_plain (c : Char) (blank : Text.isBlank c = true) : ¬ Plain c := fun plain =>
  Bool.false_ne_true (plain.solid.symm.trans blank)

-- What does not run on starts with a character that ends a number.
theorem spelling_starts (token : Token) (spelled : List Char) (spells : Spelling token spelled)
    (stops : ¬ token.runsOn) : ∃ c rest, spelled = c :: rest ∧ ¬ Plain c := by
  cases spells with
  | opening => exact ⟨'{', [], rfl, fun plain => plain.notOpening rfl⟩
  | closing => exact ⟨'}', [], rfl, fun plain => plain.notClosing rfl⟩
  | comma => exact ⟨',', [], rfl, fun plain => plain.notComma rfl⟩
  | text quoted content reads => exact ⟨'"', _, rfl, fun plain => plain.notQuote rfl⟩
  | word c letters => exact absurd rfl stops
  | number numeral value => exact absurd rfl stops

theorem follows_ends (before : Token) (tokens : List Token) (text : List Char) (runs : before.runsOn)
    (follows : Follows (some before) tokens text) : Ends Plain text := by
  have blanks : ∀ gap rest : List Char, gap ≠ [] → (∀ c ∈ gap, Text.isBlank c = true) → Ends Plain (gap ++ rest) := by
    intro gap rest some blank c first
    obtain ⟨g, others, rfl⟩ := List.exists_cons_of_ne_nil some
    obtain rfl : g = c := Option.some.inj first
    exact blank_not_plain g (blank g List.mem_cons_self)
  cases follows with
  | done _ gap blank =>
      by_cases none : text = []
      · rw [none]
        exact nofun
      · exact List.append_nil text ▸ blanks text [] none blank
  | token _ gap spelled text token tokens blank apart spells later =>
      by_cases none : gap = []
      · have stops : ¬ token.runsOn := fun onward => apart before rfl runs onward none
        obtain ⟨c, rest, rfl, ends⟩ := spelling_starts token spelled spells stops
        rw [none]
        intro d first
        obtain rfl : c = d := Option.some.inj first
        exact ends
      · exact blanks gap _ none blank

/-! The tokens of a layout. -/

-- A token on its own is read up to its end where what follows ends words and numbers.
theorem spelling_lexeme (token : Token) (spelled rest : List Char) (spells : Spelling token spelled)
    (ends : token.runsOn → Ends Plain rest) : Lexeme (spelled ++ rest) token rest := by
  cases spells with
  | opening => exact .opening rest
  | closing => exact .closing rest
  | comma => exact .comma rest
  | text quoted content reads =>
      have split : '"' :: (quoted ++ ['"']) ++ rest = '"' :: (quoted ++ '"' :: rest) := by simp
      rw [split]
      exact .text quoted content rest reads
  | word c letters first parts =>
      exact .word c letters rest first parts fun d next part => ends rfl d next (word_part_plain d part)
  | number _ value reads =>
      obtain ⟨some, inked⟩ := Decimal.numeral_inked spelled value (Decimal.shape_of_numeral spelled value reads)
      obtain ⟨c, run, rfl⟩ := List.exists_cons_of_ne_nil some
      obtain ⟨first, others⟩ := List.forall_mem_cons.mp inked
      obtain ⟨plain, notLetter⟩ := inked_plain c first
      exact .number c run rest value plain notLetter (fun d member => (inked_plain d (others d member)).1)
        (ends rfl) reads

theorem follows_lexes (before : Option Token) (tokens : List Token) (text : List Char)
    (follows : Follows before tokens text) : Lexes text tokens := by
  induction follows with
  | done _ gap blank => exact blanks_lex gap blank
  | token before gap spelled text token tokens blank _ spells later ih =>
      have lexeme := spelling_lexeme token spelled text spells fun runs => follows_ends token tokens text runs later
      exact lexes_after_blanks gap _ _ blank (.token _ text token tokens lexeme ih)

theorem layout_tokenizes (tokens : List Token) (text : String) (layout : Layout tokens text) :
    ∃ located, tokenize text = .ok located ∧ located.map Located.token = tokens :=
  (tokenize_iff text tokens).mpr (follows_lexes none tokens text.toList layout)

end File

namespace Game

open File

theorem layout_means_nothing (first : Nat) (tokens : List Token) (one other : String) (left : Layout tokens one)
    (right : Layout tokens other) :
    (tokenize one).map (List.map Located.token) = .ok tokens ∧
      (tokenize other).map (List.map Located.token) = .ok tokens ∧
      (Game.parse first one).mapError ReadError.unplaced = (Game.parse first other).mapError ReadError.unplaced := by
  obtain ⟨located, scanned, same⟩ := layout_tokenizes tokens one left
  obtain ⟨placed, rescanned, again⟩ := layout_tokenizes tokens other right
  have agree : Agree Eq (Game.parse first one) (Game.parse first other) := by
    rw [Game.parse, Game.parse, scanned, rescanned, ok_bind, ok_bind]
    refine agree_bind (read_description_blind located placed (same.trans again.symm)) ?_
    rintro description _ rfl
    exact .read _ _ rfl
  refine ⟨?_, ?_, agree_unplaced _ _ agree⟩
  · rw [scanned, ← same]
    rfl
  · rw [rescanned, ← again]
    rfl

/-! The same file with no blank that could be left out, and on lines of its own with other spellings. -/

namespace Spread

def tokens : List Token :=
  [.word "NFG", .number 1, .word "R", .text "t\\", .opening, .closing, .opening, .closing]

def dense : String := "NFG 1 R\"t\\\\\"\x7b\x7d\x7b\x7d"

def loose : String := "\nNFG\t2/2 R \"\\t\\\\\"\n\x7b \x7d\n\x7b \x7d\n"

theorem magic : Spelling (.word "NFG") ['N', 'F', 'G'] :=
  .word 'N' ['F', 'G'] (by decide) (List.forall_mem_cons.mpr ⟨by decide, List.forall_mem_singleton.mpr (by decide)⟩)

theorem field : Spelling (.word "R") ['R'] := .word 'R' [] (by decide) (List.forall_mem_nil _)

theorem dense_layout : Layout tokens dense := by
  have one : Spelling (.number 1) ['1'] := .number ['1'] 1 (by decide +kernel)
  have text : dense.toList = ['N', 'F', 'G'] ++ (' ' :: (['1'] ++ (' ' :: (['R'] ++ ((Text.quote "t\\").toList ++
    (['{'] ++ (['}'] ++ (['{'] ++ (['}'] ++ []))))))))) := by rfl
  rw [Layout, text]
  refine follows_closely none _ _ _ _ (by decide) magic ?_
  refine follows_blank _ ' ' (by decide) _ _ _ _ one ?_
  refine follows_blank _ ' ' (by decide) _ _ _ _ field ?_
  refine follows_closely _ _ _ _ _ (by decide) (quote_spells "t\\") ?_
  refine follows_closely _ _ _ _ _ (by decide) .opening ?_
  refine follows_closely _ _ _ _ _ (by decide) .closing ?_
  refine follows_closely _ _ _ _ _ (by decide) .opening ?_
  refine follows_closely _ _ _ _ _ (by decide) .closing ?_
  exact .done _ [] (List.forall_mem_nil _)

theorem loose_layout : Layout tokens loose := by
  have one : Spelling (.number 1) ['2', '/', '2'] := .number ['2', '/', '2'] 1 (by decide +kernel)
  have title : Spelling (.text "t\\") ['"', '\\', 't', '\\', '\\', '"'] :=
    .text ['\\', 't', '\\', '\\'] ['t', '\\'] (.escaped 't' _ _ (.escaped '\\' [] [] .nil))
  have text : loose.toList = '\n' :: (['N', 'F', 'G'] ++ ('\t' :: (['2', '/', '2'] ++ (' ' :: (['R'] ++ (' ' ::
    (['"', '\\', 't', '\\', '\\', '"'] ++ ('\n' :: (['{'] ++ (' ' :: (['}'] ++ ('\n' :: (['{'] ++ (' ' :: (['}'] ++
      ['\n']))))))))))))))) := by rfl
  rw [Layout, text]
  refine follows_blank none '\n' (by decide) _ _ _ _ magic ?_
  refine follows_blank _ '\t' (by decide) _ _ _ _ one ?_
  refine follows_blank _ ' ' (by decide) _ _ _ _ field ?_
  refine follows_blank _ ' ' (by decide) _ _ _ _ title ?_
  refine follows_blank _ '\n' (by decide) _ _ _ _ .opening ?_
  refine follows_blank _ ' ' (by decide) _ _ _ _ .closing ?_
  refine follows_blank _ '\n' (by decide) _ _ _ _ .opening ?_
  refine follows_blank _ ' ' (by decide) _ _ _ _ .closing ?_
  exact .done _ ['\n'] (List.forall_mem_singleton.mpr (by decide))

end Spread

theorem layout_means_nothing_spread : Layout Spread.tokens Spread.dense ∧ Layout Spread.tokens Spread.loose ∧
    (tokenize Spread.dense).map (List.map Located.token) = .ok Spread.tokens ∧
    (tokenize Spread.loose).map (List.map Located.token) = .ok Spread.tokens ∧
    (Game.parse 0 Spread.dense).mapError ReadError.unplaced =
      (Game.parse 0 Spread.loose).mapError ReadError.unplaced :=
  ⟨Spread.dense_layout, Spread.loose_layout,
    layout_means_nothing 0 Spread.tokens Spread.dense Spread.loose Spread.dense_layout Spread.loose_layout⟩

end Game

end NormalForm
