import NormalForm.Proofs.File.Lexing

/-!
Tokens of a text that is cut short. They are those of the whole text up to some place, except that a word
or a number at the end may have lost characters: nothing marks where one ends.
-/

set_option autoImplicit false

namespace NormalForm.File

open Text Decimal

-- Words and numbers go on as long as their characters do.
inductive Open : Token → Prop where
  | word (letters : String) : Open (.word letters)
  | number (value : Rat) : Open (.number value)

-- The tokens of a text and those of its front.
inductive Cut : List Token → List Token → Prop where
  | here (whole : List Token) : Cut whole []
  | within (token short : Token) (later : List Token) (whole : Open token) (part : Open short) :
      Cut (token :: later) [short]
  | after (token : Token) (whole front : List Token) (rest : Cut whole front) : Cut (token :: whole) (token :: front)

/-! Lexemes with more text after them. -/

theorem lexeme_solid (text after : List Char) (token : Token) (lexeme : Lexeme text token after) :
    ∃ c rest, text = c :: rest ∧ isBlank c = false := by
  obtain ⟨c, rest, -, same, solid, -⟩ := token_from_of_lexeme 0 text after token lexeme
  exact ⟨c, rest, same, solid⟩

theorem lexeme_unique (text after other : List Char) (token next : Token) (left : Lexeme text token after)
    (right : Lexeme text next other) : token = next ∧ after = other := by
  obtain ⟨c, rest, last, rfl, -, found⟩ := token_from_of_lexeme 0 text after token left
  obtain ⟨_, _, _, same, -, again⟩ := token_from_of_lexeme 0 _ other next right
  cases same
  cases found.symm.trans again
  exact ⟨rfl, rfl⟩

theorem ends_append (Part : Char → Prop) (rest more : List Char) (ends : Ends Part rest) (some : rest ≠ []) :
    Ends Part (rest ++ more) := by
  obtain ⟨c, others, rfl⟩ := List.exists_cons_of_ne_nil some
  exact ends

-- A word or a number at the end of the text may go on in a longer one.
theorem lexeme_append (text after more : List Char) (token : Token) (lexeme : Lexeme text token after)
    (closed : Open token → after ≠ []) : Lexeme (text ++ more) token (after ++ more) := by
  cases lexeme with
  | opening => exact .opening _
  | closing => exact .closing _
  | comma => exact .comma _
  | text quoted content _ reads =>
      rw [List.cons_append, List.append_assoc]
      exact .text quoted content _ reads
  | word c letters _ first parts ends =>
      rw [List.cons_append, List.append_assoc]
      exact .word c letters _ first parts (ends_append WordPart after more ends (closed (.word _)))
  | number c run _ value first notLetter parts ends reads =>
      rw [List.cons_append, List.append_assoc]
      exact .number c run _ value first notLetter parts (ends_append Plain after more ends (closed (.number _))) reads

theorem lexeme_letter (c : Char) (rest after : List Char) (token : Token) (letter : Letter c)
    (lexeme : Lexeme (c :: rest) token after) : Open token := by
  obtain ⟨-, noMark, notQuote⟩ := letter_solid c letter
  obtain ⟨notOpening, notClosing, notComma⟩ := (mark_none_iff c).mp noMark
  cases lexeme with
  | opening => exact absurd rfl notOpening
  | closing => exact absurd rfl notClosing
  | comma => exact absurd rfl notComma
  | text => exact absurd rfl notQuote
  | word => exact .word _
  | number => exact .number _

theorem lexeme_plain (c : Char) (rest after : List Char) (token : Token) (plain : Plain c)
    (lexeme : Lexeme (c :: rest) token after) : Open token := by
  cases lexeme with
  | opening => exact absurd rfl plain.notOpening
  | closing => exact absurd rfl plain.notClosing
  | comma => exact absurd rfl plain.notComma
  | text => exact absurd rfl plain.notQuote
  | word => exact .word _
  | number => exact .number _

theorem lexeme_open (text after more other : List Char) (token next : Token) (lexeme : Lexeme text token after)
    (goes : Open token) (longer : Lexeme (text ++ more) next other) : Open next := by
  cases goes with
  | word letters =>
      cases lexeme with
      | word c letters _ first => exact lexeme_letter c _ other next first longer
  | number value =>
      cases lexeme with
      | number c run _ _ first => exact lexeme_plain c _ other next first longer

/-! Texts. -/

theorem lexes_blank (c : Char) (rest : List Char) (tokens : List Token) (blank : isBlank c = true)
    (lexes : Lexes (c :: rest) tokens) : Lexes rest tokens := by
  cases lexes with
  | blank _ _ _ _ later => exact later
  | token _ _ _ _ first _ =>
      obtain ⟨_, _, same, solid⟩ := lexeme_solid _ _ _ first
      cases same
      exact absurd (blank.symm.trans solid) (by decide)

theorem lexes_nothing (tokens : List Token) (lexes : Lexes [] tokens) : tokens = [] := by
  cases lexes with
  | done => rfl
  | token _ _ _ _ first _ =>
      obtain ⟨_, _, same, -⟩ := lexeme_solid _ _ _ first
      cases same

theorem lexes_solid (text : List Char) (tokens : List Token) (c : Char) (rest : List Char) (starts : text = c :: rest)
    (solid : isBlank c = false) (lexes : Lexes text tokens) : ∃ token after later,
      tokens = token :: later ∧ Lexeme text token after ∧ Lexes after later := by
  subst starts
  cases lexes with
  | blank _ _ _ blank => exact absurd (blank.symm.trans solid) (by decide)
  | token _ after token later first rest => exact ⟨token, after, later, rfl, first, rest⟩

-- The induction is on the lexemes of the front. Its last one may go on behind the cut.
theorem lexes_cut (front missing : List Char) (tokens whole : List Token) (left : Lexes front tokens)
    (all : Lexes (front ++ missing) whole) : Cut whole tokens := by
  induction left generalizing whole with
  | done => exact .here whole
  | blank c rest tokens blank _ ih => exact ih whole (lexes_blank c _ whole blank all)
  | token text rest token tokens first later ih =>
      obtain ⟨c, characters, starts, solid⟩ := lexeme_solid text rest token first
      obtain ⟨next, after, remaining, rfl, longer, others⟩ := lexes_solid _ whole c (characters ++ missing)
        (by rw [starts, List.cons_append]) solid all
      by_cases last : Open token ∧ rest = []
      · obtain ⟨goes, rfl⟩ := last
        obtain rfl := lexes_nothing tokens later
        exact .within next token remaining (lexeme_open text [] missing after token next first goes longer) goes
      · have whole := lexeme_append text rest missing token first fun goes none => last ⟨goes, none⟩
        obtain ⟨rfl, rfl⟩ := lexeme_unique _ _ _ _ _ whole longer
        exact .after token remaining tokens (ih remaining others)

-- A text that yields tokens can be cut off in front.
theorem yields_lexes (text rest : List Char) (tokens all : List Token) (yields : Yields text tokens) :
    Lexes (text ++ rest) all ↔ ∃ later, all = tokens ++ later ∧ Lexes rest later := by
  obtain ⟨last, located, same, run⟩ := yields 1 [] rest
  rw [List.append_nil] at run
  constructor
  · intro lexes
    obtain ⟨found, rfl, scanned⟩ := lexes_scan _ all lexes 1 []
    obtain ⟨later, split, lexes⟩ := scan_lexes last located.reverse rest _ (run.symm.trans scanned)
    rw [List.reverse_reverse] at split
    refine ⟨later.map Located.token, ?_, lexes⟩
    rw [← same, ← List.map_append, ← split]
    rfl
  · rintro ⟨later, rfl, lexes⟩
    obtain ⟨found, rfl, scanned⟩ := lexes_scan rest later lexes last located.reverse
    obtain ⟨parts, split, whole⟩ := scan_lexes 1 [] _ _ (run.trans scanned)
    rw [List.reverse_reverse, List.reverse_nil, List.nil_append] at split
    rw [← same, ← List.map_append, split]
    exact whole

/-! Tokens. -/

theorem cut_length (whole front : List Token) (cut : Cut whole front) : front.length ≤ whole.length := by
  induction cut with
  | here => exact Nat.zero_le _
  | within token short later => exact Nat.succ_le_succ (Nat.zero_le later.length)
  | after token whole front _ ih => exact Nat.succ_le_succ ih

-- In front of a token that has its end, nothing is lost.
theorem cut_behind (part : List Token) (token : Token) (whole front : List Token) (ended : ¬ Open token)
    (cut : Cut whole (part ++ token :: front)) : ∃ later, whole = part ++ token :: later ∧ Cut later front := by
  induction part generalizing whole with
  | nil =>
      cases cut with
      | within _ _ _ _ part => exact absurd part ended
      | after _ later _ rest => exact ⟨later, rfl, rest⟩
  | cons first part ih =>
      generalize same : first :: part ++ token :: front = tokens at cut
      cases cut with
      | here => cases same
      | within =>
        obtain ⟨-, none⟩ := List.cons.inj same
        exact absurd none (List.append_ne_nil_of_right_ne_nil part (List.cons_ne_nil token front))
      | after head later tail rest =>
        obtain ⟨rfl, rfl⟩ := List.cons.inj same
        obtain ⟨more, rfl, cut⟩ := ih later rest
        exact ⟨more, rfl, cut⟩

theorem closing_ended : ¬ Open .closing := nofun

theorem text_ended (content : String) : ¬ Open (.text content) := nofun

end NormalForm.File
