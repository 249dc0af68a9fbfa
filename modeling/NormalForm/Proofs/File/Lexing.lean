import NormalForm.Proofs.File.Grammar
import NormalForm.Proofs.File.Tokens

/-!
Scanning takes a text apart exactly as its lexemes do: it gives a list of tokens when the text is made
of lexemes with these tokens, and fails on any other text.
-/

set_option autoImplicit false

namespace NormalForm.File

open Text Decimal

/-! Kinds of characters. -/

theorem is_letter_iff (c : Char) : isLetter c = true ↔ Letter c := by
  simp [isLetter, Letter]

theorem is_word_char_iff (c : Char) : isWordChar c = true ↔ WordPart c := by
  simp [isWordChar, is_letter_iff, WordPart, isDigit, or_assoc]

theorem mark_none_iff (c : Char) : mark? c = none ↔ c ≠ '{' ∧ c ≠ '}' ∧ c ≠ ',' := by
  unfold mark?
  split_ifs with opening closing comma
  · simp [opening]
  · simp [closing]
  · simp [comma]
  · simp [opening, closing, comma]

theorem is_number_char_iff (c : Char) : isNumberChar c = true ↔ Plain c := by
  have unmarked : (mark? c).isSome = false ↔ mark? c = none :=
    Option.isSome_eq_false_iff.trans Option.isNone_iff_eq_none
  constructor
  · intro goes
    simp only [isNumberChar, Bool.not_eq_true', Bool.or_eq_false_iff, beq_eq_false_iff_ne] at goes
    obtain ⟨⟨solid, mark⟩, notQuote⟩ := goes
    obtain ⟨notOpening, notClosing, notComma⟩ := (mark_none_iff c).mp (unmarked.mp mark)
    exact ⟨solid, notOpening, notClosing, notComma, notQuote⟩
  · intro plain
    have mark := unmarked.mpr ((mark_none_iff c).mpr ⟨plain.notOpening, plain.notClosing, plain.notComma⟩)
    simp [isNumberChar, plain.solid, mark, plain.notQuote]

-- The longest run of one kind is the one after which the kind ends.
theorem run_iff (goes : Char → Bool) (Part : Char → Prop) (kind : ∀ c, goes c = true ↔ Part c)
    (text run rest : List Char) :
    (text.takeWhile goes = run ∧ text.dropWhile goes = rest) ↔
      text = run ++ rest ∧ (∀ c ∈ run, Part c) ∧ Ends Part rest := by
  constructor
  · rintro ⟨rfl, rfl⟩
    refine ⟨List.takeWhile_append_dropWhile.symm, fun c member => (kind c).mp (List.mem_takeWhile_imp member), ?_⟩
    intro c first part
    have stops := List.head?_dropWhile_not goes text
    rw [Option.mem_def.mp first] at stops
    exact absurd ((kind c).mpr part) (by simpa using stops)
  · rintro ⟨rfl, parts, ends⟩
    have inside : ∀ c ∈ run, goes c = true := fun c member => (kind c).mpr (parts c member)
    rw [List.takeWhile_append_of_pos inside, List.dropWhile_append_of_pos inside]
    cases rest with
    | nil => exact ⟨List.append_nil run, rfl⟩
    | cons c rest =>
        have stops : ¬ goes c = true := fun part => ends c rfl ((kind c).mp part)
        rw [List.takeWhile_cons_of_neg stops, List.dropWhile_cons_of_neg stops]
        exact ⟨List.append_nil run, rfl⟩

/-! Lexemes. -/

theorem unquote_quoted (quoted content rest : List Char) (reads : Quoted quoted content) :
    unquote (quoted ++ '"' :: rest) = some (content, rest) := by
  induction reads with
  | nil => rfl
  | plain c text content notQuote notSlash _ ih => simp [unquote, notSlash, ih]
  | escaped c text content _ ih => simp [unquote, ih]

-- The cases are those of the reader; only its last one has to rule out a backslash.
theorem quoted_of_unquote (text content after : List Char) (closed : unquote text = some (content, after)) :
    ∃ quoted, Quoted quoted content ∧ text = quoted ++ '"' :: after := by
  fun_induction unquote text generalizing content with
  | case1 => cases closed
  | case2 rest =>
      obtain ⟨rfl, rfl⟩ := Prod.mk.inj (Option.some.inj closed)
      exact ⟨[], .nil, rfl⟩
  | case3 => cases closed
  | case4 c rest ih =>
      obtain ⟨⟨inner, remaining⟩, innerClosed, same⟩ := Option.map_eq_some_iff.mp closed
      obtain ⟨rfl, rfl⟩ := Prod.mk.inj same
      obtain ⟨quoted, reads, rfl⟩ := ih inner innerClosed
      exact ⟨'\\' :: c :: quoted, .escaped c quoted inner reads, rfl⟩
  | case5 c rest notQuote lone notSlash ih =>
      have plain : c ≠ '\\' := by
        intro slash
        cases rest with
        | nil => exact lone slash rfl
        | cons next later => exact notSlash next later slash rfl
      obtain ⟨⟨inner, remaining⟩, innerClosed, same⟩ := Option.map_eq_some_iff.mp closed
      obtain ⟨rfl, rfl⟩ := Prod.mk.inj same
      obtain ⟨quoted, reads, rfl⟩ := ih inner innerClosed
      exact ⟨c :: quoted, .plain c quoted inner notQuote plain reads, rfl⟩

theorem lexeme_of_mark (c : Char) (token : Token) (rest : List Char) (mark : mark? c = some token) :
    Lexeme (c :: rest) token rest := by
  unfold mark? at mark
  split_ifs at mark with opening closing comma
  · cases mark
    exact opening ▸ .opening rest
  · cases mark
    exact closing ▸ .closing rest
  · cases mark
    exact comma ▸ .comma rest

theorem lexeme_of_token_from (line last : Nat) (c : Char) (rest after : List Char) (token : Token)
    (solid : isBlank c = false) (found : tokenFrom line c rest = .ok (token, last, after)) :
    Lexeme (c :: rest) token after := by
  unfold tokenFrom at found
  split at found
  case h_1 mark =>
    cases found
    exact lexeme_of_mark c token rest mark
  case h_2 mark =>
    split_ifs at found with quote letter
    · split at found
      · cases found
      · rename_i content remaining closed
        cases found
        obtain ⟨quoted, reads, rfl⟩ := quoted_of_unquote rest content _ closed
        exact quote ▸ .text quoted content after reads
    · cases found
      obtain ⟨split, parts, ends⟩ := (run_iff isWordChar WordPart is_word_char_iff rest _ _).mp ⟨rfl, rfl⟩
      have word := Lexeme.word c _ _ ((is_letter_iff c).mp letter) parts ends
      rw [← split] at word
      exact word
    · dsimp only at found
      split at found
      · rename_i value reads
        cases found
        obtain ⟨notOpening, notClosing, notComma⟩ := (mark_none_iff c).mp mark
        have plain : Plain c := ⟨solid, notOpening, notClosing, notComma, quote⟩
        have notLetter : ¬ Letter c := fun first => letter ((is_letter_iff c).mpr first)
        obtain ⟨split, parts, ends⟩ := (run_iff isNumberChar Plain is_number_char_iff rest _ _).mp ⟨rfl, rfl⟩
        have number := Lexeme.number c _ _ value plain notLetter parts ends reads
        rw [← split] at number
        exact number
      · cases found

theorem letter_solid (c : Char) (letter : Letter c) : isBlank c = false ∧ mark? c = none ∧ c ≠ '"' := by
  have below : c.toNat < 128 := by
    rcases letter with ⟨-, small⟩ | ⟨-, small⟩
    · exact Nat.lt_of_le_of_lt small (by decide)
    · exact Nat.lt_of_le_of_lt small (by decide)
  have all : ∀ n < 128, isLetter (Char.ofNat n) = true →
      isBlank (Char.ofNat n) = false ∧ mark? (Char.ofNat n) = none ∧ Char.ofNat n ≠ '"' := by
    decide +kernel
  have here := all c.toNat below
  rw [Char.ofNat_toNat] at here
  exact here ((is_letter_iff c).mpr letter)

theorem token_from_of_lexeme (line : Nat) (text after : List Char) (token : Token)
    (lexeme : Lexeme text token after) : ∃ (c : Char) (rest : List Char) (last : Nat),
      text = c :: rest ∧ isBlank c = false ∧ tokenFrom line c rest = .ok (token, last, after) := by
  cases lexeme with
  | opening => exact ⟨'{', after, line, rfl, by decide, rfl⟩
  | closing => exact ⟨'}', after, line, rfl, by decide, rfl⟩
  | comma => exact ⟨',', after, line, rfl, by decide, rfl⟩
  | text quoted content _ reads =>
      refine ⟨'"', quoted ++ '"' :: after, line + lineBreaks content, rfl, by decide, ?_⟩
      have noMark : mark? '"' = none := by decide
      rw [tokenFrom, noMark]
      simp only [if_true, unquote_quoted quoted content after reads]
  | word c letters _ first parts ends =>
      obtain ⟨solid, noMark, notQuote⟩ := letter_solid c first
      obtain ⟨taken, left⟩ := (run_iff isWordChar WordPart is_word_char_iff _ _ _).mpr ⟨rfl, parts, ends⟩
      refine ⟨c, letters ++ after, line, rfl, solid, ?_⟩
      rw [tokenFrom, noMark]
      simp only [if_neg notQuote, if_pos ((is_letter_iff c).mpr first), taken, left]
  | number c run _ value first notLetter parts ends reads =>
      have noMark := (mark_none_iff c).mpr ⟨first.notOpening, first.notClosing, first.notComma⟩
      have noLetter : ¬ isLetter c = true := fun letter => notLetter ((is_letter_iff c).mp letter)
      obtain ⟨taken, left⟩ := (run_iff isNumberChar Plain is_number_char_iff _ _ _).mpr ⟨rfl, parts, ends⟩
      refine ⟨c, run ++ after, line, rfl, first.solid, ?_⟩
      rw [tokenFrom, noMark]
      simp only [if_neg first.notQuote, if_neg noLetter, taken, left, reads]

/-! Texts. -/

theorem lexes_after_blanks (gap text : List Char) (tokens : List Token) (blank : ∀ c ∈ gap, isBlank c = true)
    (lexes : Lexes text tokens) : Lexes (gap ++ text) tokens := by
  induction gap with
  | nil => exact lexes
  | cons c gap ih =>
      obtain ⟨first, others⟩ := List.forall_mem_cons.mp blank
      exact .blank c _ tokens first (ih others)

theorem blanks_lex (blanks : List Char) (blank : ∀ c ∈ blanks, isBlank c = true) : Lexes blanks [] :=
  List.append_nil blanks ▸ lexes_after_blanks blanks [] [] blank .done

-- Tokens already read stay in front.
theorem scan_lexes (line : Nat) (read : List Located) (text : List Char) (located : List Located)
    (scanned : scan line read text = .ok located) :
    ∃ later, located = read.reverse ++ later ∧ Lexes text (later.map Located.token) := by
  fun_induction scan line read text with
  | case1 line read =>
      cases scanned
      exact ⟨[], (List.append_nil _).symm, .done⟩
  | case2 line read rest ih =>
      obtain ⟨later, same, lexes⟩ := ih scanned
      exact ⟨later, same, .blank '\n' rest _ (by decide) lexes⟩
  | case3 line read c rest _ blank ih =>
      obtain ⟨later, same, lexes⟩ := ih scanned
      exact ⟨later, same, .blank c rest _ blank lexes⟩
  | case4 => cases scanned
  | case5 line read c rest _ solid token next after found ih =>
      obtain ⟨later, same, lexes⟩ := ih scanned
      have first := lexeme_of_token_from line next c rest after token (Bool.eq_false_of_not_eq_true solid) found
      refine ⟨⟨token, line⟩ :: later, ?_, .token (c :: rest) after token _ first lexes⟩
      rw [same, List.reverse_cons, List.append_assoc, List.singleton_append]

-- The induction is on the lexemes: whatever was read before, the scanner takes the next one whole.
theorem lexes_scan (text : List Char) (tokens : List Token) (lexes : Lexes text tokens) (line : Nat)
    (read : List Located) : ∃ later, later.map Located.token = tokens ∧
      scan line read text = .ok (read.reverse ++ later) := by
  induction lexes generalizing line read with
  | done => exact ⟨[], rfl, by rw [scan, List.append_nil]⟩
  | blank c rest tokens blank _ ih =>
      obtain ⟨last, located, none, run⟩ := yields_blank c blank line read rest
      obtain ⟨later, same, scanned⟩ := ih last read
      rw [List.map_eq_nil_iff.mp none] at run
      exact ⟨later, same, run.trans scanned⟩
  | token text rest token tokens first _ ih =>
      obtain ⟨c, others, last, rfl, solid, found⟩ := token_from_of_lexeme line text rest token first
      obtain ⟨later, same, scanned⟩ := ih last (⟨token, line⟩ :: read)
      refine ⟨⟨token, line⟩ :: later, by rw [List.map_cons, same], ?_⟩
      rw [scan_token line last read c others rest token solid found, scanned, List.reverse_cons,
        List.append_assoc, List.singleton_append]

theorem tokenize_iff (text : String) (tokens : List Token) :
    (∃ located, tokenize text = .ok located ∧ located.map Located.token = tokens) ↔
      Lexes text.toList tokens := by
  constructor
  · rintro ⟨located, scanned, rfl⟩
    obtain ⟨later, rfl, lexes⟩ := scan_lexes 1 [] text.toList located scanned
    exact lexes
  · intro lexes
    obtain ⟨later, same, scanned⟩ := lexes_scan text.toList tokens lexes 1 []
    exact ⟨later, scanned, same⟩

end NormalForm.File
