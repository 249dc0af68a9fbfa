import NormalForm.Proofs.File.Cut
import NormalForm.Proofs.File.Layout
import NormalForm.Proofs.File.Refusal

/-!
Where failures point. The line of a token is one more than the line breaks before its first character, and a text that
is cut off before or after a token has the tokens up to there. So a failure can be held against the text: nothing is
wrong in front of what it blames, and with it the failure is there.
-/

set_option autoImplicit false

namespace NormalForm

namespace File

/-! Line breaks in tokens. -/

def Token.breaks : Token → Nat
  | text content => lineBreaks content.toList
  | _ => 0

theorem line_breaks_append (front back : List Char) : lineBreaks (front ++ back) = lineBreaks front + lineBreaks back :=
  List.count_append

theorem no_line_breaks (text : List Char) (none : ∀ c ∈ text, c ≠ '\n') : lineBreaks text = 0 :=
  List.count_eq_zero.mpr fun member => none '\n' member rfl

theorem plain_no_break (c : Char) (plain : Plain c) : c ≠ '\n' := by
  rintro rfl
  exact absurd plain.solid (by decide)

theorem quoted_breaks (quoted content : List Char) (reads : Quoted quoted content) :
    lineBreaks quoted = lineBreaks content := by
  induction reads with
  | nil => rfl
  | plain c text content _ _ _ ih =>
      simp only [lineBreaks, List.count_cons] at ih ⊢
      rw [ih]
  | escaped c text content _ ih =>
      simp only [lineBreaks, List.count_cons] at ih ⊢
      rw [ih]
      rfl

theorem spelling_breaks (token : Token) (spelled : List Char) (spells : Spelling token spelled) :
    lineBreaks spelled = token.breaks := by
  cases spells with
  | opening => rfl
  | closing => rfl
  | comma => rfl
  | text quoted content reads =>
      rw [Token.breaks, String.toList_ofList, ← quoted_breaks quoted content reads]
      simp [lineBreaks]
  | word c letters first parts =>
      refine no_line_breaks _ fun d member => plain_no_break d (word_part_plain d ?_)
      rcases List.mem_cons.mp member with rfl | inside
      · exact .inl first
      · exact parts d inside
  | number numeral value reads =>
      obtain ⟨-, inked⟩ := Decimal.numeral_inked spelled value (Decimal.shape_of_numeral spelled value reads)
      exact no_line_breaks _ fun d member => plain_no_break d (inked_plain d (inked d member)).1

theorem token_from_last (line last : Nat) (c : Char) (rest after : List Char) (token : Token)
    (found : tokenFrom line c rest = .ok (token, last, after)) : last = line + token.breaks := by
  unfold tokenFrom at found
  split at found
  case h_1 mark =>
    cases found
    unfold mark? at mark
    split_ifs at mark
    · cases mark
      rfl
    · cases mark
      rfl
    · cases mark
      rfl
  case h_2 =>
    split_ifs at found
    · split at found
      · cases found
      · cases found
        rw [Token.breaks, String.toList_ofList]
    · cases found
      rfl
    · dsimp only at found
      split at found
      · cases found
        rfl
      · cases found

/-! Getting past a text. -/

-- The scanner gets past a text with these tokens, whatever is left of the text after it.
def Gets (line : Nat) (front : List Char) (passed : Tokens) (rest : List Char) : Prop :=
  ∀ read other, other <+: rest →
    scan line read (front ++ other) = scan (line + lineBreaks front) (passed.reverse ++ read) other

theorem gets_nil (line : Nat) (rest : List Char) : Gets line [] [] rest := fun _ _ _ => rfl

theorem gets_blank (line : Nat) (c : Char) (rest : List Char) (blank : Text.isBlank c = true) : Gets line [c] [] rest := by
  intro read other _
  by_cases lineBreak : c = '\n'
  · rw [lineBreak, List.singleton_append, scan, if_pos rfl]
    rfl
  · have none : lineBreaks [c] = 0 := no_line_breaks [c] (List.forall_mem_singleton.mpr lineBreak)
    rw [List.singleton_append, scan, if_neg lineBreak, if_pos blank, none]
    rfl

theorem gets_append (line : Nat) (front next rest : List Char) (passed later : Tokens)
    (first : Gets line front passed (next ++ rest)) (second : Gets (line + lineBreaks front) next later rest) :
    Gets line (front ++ next) (passed ++ later) rest := by
  intro read other within
  rw [List.append_assoc, first read (next ++ other) ((List.prefix_append_right_inj next).mpr within),
    second _ other within, line_breaks_append, Nat.add_assoc, List.reverse_append, List.append_assoc]

theorem ends_front (Part : Char → Prop) (rest other : List Char) (ends : Ends Part rest) (within : other <+: rest) :
    Ends Part other := by
  obtain ⟨missing, rfl⟩ := within
  cases other with
  | nil => exact fun c first => absurd first (by simp)
  | cons c others => exact ends

-- A token is spelled, and read from its spelling in front of whatever is left of the text after it.
theorem lexeme_spelled (text after : List Char) (token : Token) (lexeme : Lexeme text token after) :
    ∃ spelled, text = spelled ++ after ∧ Spelling token spelled ∧
      ∀ other, other <+: after → Lexeme (spelled ++ other) token other := by
  cases lexeme with
  | opening => exact ⟨['{'], rfl, .opening, fun other _ => .opening other⟩
  | closing => exact ⟨['}'], rfl, .closing, fun other _ => .closing other⟩
  | comma => exact ⟨[','], rfl, .comma, fun other _ => .comma other⟩
  | text quoted content _ reads =>
      have split (other : List Char) : '"' :: (quoted ++ ['"']) ++ other = '"' :: (quoted ++ '"' :: other) := by simp
      refine ⟨'"' :: (quoted ++ ['"']), (split after).symm, .text quoted content reads, fun other _ => ?_⟩
      rw [split]
      exact .text quoted content other reads
  | word c letters _ first parts ends =>
      exact ⟨c :: letters, rfl, .word c letters first parts, fun other within =>
        .word c letters other first parts (ends_front WordPart after other ends within)⟩
  | number c run _ value first notLetter parts ends reads =>
      exact ⟨c :: run, rfl, .number (c :: run) value reads, fun other within =>
        .number c run other value first notLetter parts (ends_front Plain after other ends within) reads⟩

theorem token_gets (line next : Nat) (c : Char) (rest after : List Char) (token : Token)
    (solid : Text.isBlank c = false) (lexed : tokenFrom line c rest = .ok (token, next, after)) :
    ∃ spelled, c :: rest = spelled ++ after ∧ Spelling token spelled ∧ next = line + lineBreaks spelled ∧
      Gets line spelled [⟨token, line⟩] after := by
  have lexeme := lexeme_of_token_from line next c rest after token solid lexed
  obtain ⟨spelled, split, spells, again⟩ := lexeme_spelled _ after token lexeme
  have place : next = line + lineBreaks spelled := by
    rw [token_from_last line next c rest after token lexed, spelling_breaks token spelled spells]
  refine ⟨spelled, split, spells, place, fun read other within => ?_⟩
  obtain ⟨c, rest, last, starts, solid, found⟩ := token_from_of_lexeme line _ other token (again other within)
  have breaks := token_from_last line last c rest other token found
  rw [starts, scan_token line last read c rest other token solid found, breaks, spelling_breaks token spelled spells]
  rfl

/-! The tokens of a text with their places. -/

-- A token stands after some text, which holds the tokens before it.
structure Stands (line : Nat) (passed : Tokens) (found : Located) (front blamed after : List Char) : Prop where
  gets : Gets line front passed (blamed ++ after)
  place : found.line = line + lineBreaks front
  spells : Spelling found.token blamed
  taken : Gets found.line blamed [found] after

theorem stands_after (line : Nat) (first front blamed after : List Char) (some passed : Tokens) (found : Located)
    (gets : Gets line first some (front ++ (blamed ++ after)))
    (stands : Stands (line + lineBreaks first) passed found front blamed after) :
    Stands line (some ++ passed) found (first ++ front) blamed after where
  gets := gets_append line first front _ some passed gets stands.gets
  place := by rw [stands.place, line_breaks_append, Nat.add_assoc]
  spells := stands.spells
  taken := stands.taken

theorem blank_no_break (c : Char) (other : c ≠ '\n') : lineBreaks [c] = 0 :=
  no_line_breaks [c] (List.forall_mem_singleton.mpr other)

-- The induction is that of the scanner; what it has read before stays in front.
theorem scan_splits (line : Nat) (read : Tokens) (text : List Char) (passed later : Tokens) (found : Located)
    (scanned : scan line read text = .ok (read.reverse ++ (passed ++ found :: later))) :
    ∃ front blamed after, text = front ++ (blamed ++ after) ∧ Stands line passed found front blamed after := by
  fun_induction scan line read text generalizing passed with
  | case1 line read =>
      have none := List.append_eq_nil_iff.mp (List.self_eq_append_right.mp (Except.ok.inj scanned))
      exact absurd none.2 (List.cons_ne_nil found later)
  | case2 line read rest ih =>
      obtain ⟨front, blamed, after, rfl, stands⟩ := ih passed scanned
      exact ⟨'\n' :: front, blamed, after, rfl,
        stands_after line ['\n'] front blamed after [] passed found (gets_blank line '\n' _ (by decide)) stands⟩
  | case3 line read c rest notBreak blank ih =>
      obtain ⟨front, blamed, after, rfl, stands⟩ := ih passed scanned
      refine ⟨c :: front, blamed, after, rfl,
        stands_after line [c] front blamed after [] passed found (gets_blank line c _ blank) ?_⟩
      rw [blank_no_break c notBreak]
      exact stands
  | case4 => cases scanned
  | case5 line read c rest _ solid token next after lexed ih =>
      obtain ⟨spelled, split, spells, last, gets⟩ := token_gets line next c rest after token
        (Bool.eq_false_of_not_eq_true solid) lexed
      obtain ⟨behind, same, -⟩ := scan_lexes next _ after _ scanned
      rw [List.reverse_cons, List.append_assoc, List.append_cancel_left_eq, List.singleton_append] at same
      cases passed with
      | nil =>
          obtain ⟨rfl, rfl⟩ := List.cons.inj same
          refine ⟨[], spelled, after, split, gets_nil line _, rfl, spells, gets⟩
      | cons first passed =>
          obtain ⟨rfl, rfl⟩ := List.cons.inj same
          have onward : scan next (⟨token, line⟩ :: read) after =
              .ok ((⟨token, line⟩ :: read).reverse ++ (passed ++ found :: later)) := by
            rw [scanned, List.reverse_cons, List.append_assoc]
            rfl
          obtain ⟨front, blamed, behind, rfl, stands⟩ := ih passed onward
          rw [last] at stands
          refine ⟨spelled ++ front, blamed, behind, ?_,
            stands_after line spelled front blamed behind [⟨token, line⟩] passed found gets stands⟩
          rw [split, List.append_assoc]

/-! Text that is no token. -/

-- What the scanner stops at: a malformed number, or a quote that is never closed.
inductive Misread (line : Nat) : List Char → List Char → ReadError → Prop where
  | number (c : Char) (run after : List Char) (first : Plain c) (notLetter : ¬ Letter c) (parts : ∀ d ∈ run, Plain d)
      (ends : Ends Plain after) (malformed : Decimal.numeral? (c :: run) = none) :
      Misread line (c :: run) after (.badNumber line (String.ofList (c :: run)))
  | text (after : List Char) (unclosed : Text.unquote after = none) :
      Misread line ['"'] after (.unterminatedString line)

theorem misread_of_token_from (line : Nat) (c : Char) (rest : List Char) (failure : ReadError)
    (solid : Text.isBlank c = false) (failed : tokenFrom line c rest = .error failure) :
    ∃ blamed after, c :: rest = blamed ++ after ∧ Misread line blamed after failure := by
  unfold tokenFrom at failed
  split at failed
  case h_1 => cases failed
  case h_2 mark =>
    split_ifs at failed with quote letter
    · split at failed
      · rename_i unclosed
        cases failed
        exact ⟨['"'], rest, by rw [quote]; rfl, .text rest unclosed⟩
      · cases failed
    · dsimp only at failed
      split at failed
      · cases failed
      · rename_i malformed
        cases failed
        obtain ⟨notOpening, notClosing, notComma⟩ := (mark_none_iff c).mp mark
        obtain ⟨split, parts, ends⟩ := (run_iff isNumberChar Plain is_number_char_iff rest _ _).mp ⟨rfl, rfl⟩
        exact ⟨c :: rest.takeWhile isNumberChar, rest.dropWhile isNumberChar, congrArg (List.cons c) split,
          .number c _ _ ⟨solid, notOpening, notClosing, notComma, quote⟩
            (fun first => letter ((is_letter_iff c).mpr first)) parts ends malformed⟩

theorem scan_refused (line : Nat) (read : Tokens) (c : Char) (rest : List Char) (failure : ReadError)
    (solid : Text.isBlank c = false) (failed : tokenFrom line c rest = .error failure) :
    scan line read (c :: rest) = .error failure := by
  have notBreak : c ≠ '\n' := by
    rintro rfl
    exact absurd solid (by decide)
  rw [scan, if_neg notBreak, solid, if_neg Bool.false_ne_true]
  split
  · rename_i other refused
    cases refused.symm.trans failed
    rfl
  · rename_i token next after taken
    cases taken.symm.trans failed

-- What the scanner stops at, it stops at without the text after it.
theorem misread_fails (line : Nat) (read : Tokens) (blamed after : List Char) (failure : ReadError)
    (misread : Misread line blamed after failure) : scan line read blamed = .error failure := by
  cases misread with
  | number c run _ first notLetter parts ends malformed =>
      have noMark := (mark_none_iff c).mpr ⟨first.notOpening, first.notClosing, first.notComma⟩
      have noLetter : ¬ isLetter c = true := fun letter => notLetter ((is_letter_iff c).mp letter)
      have whole : run.takeWhile isNumberChar = run :=
        List.takeWhile_eq_self_iff.mpr fun d member => (is_number_char_iff d).mpr (parts d member)
      refine scan_refused line read c run _ first.solid ?_
      rw [tokenFrom, noMark]
      simp only [if_neg first.notQuote, if_neg noLetter, whole, malformed]
  | text _ unclosed => exact scan_refused line read '"' [] _ (by decide) rfl

theorem scan_fails (line : Nat) (read : Tokens) (text : List Char) (failure : ReadError)
    (failed : scan line read text = .error failure) : ∃ front passed blamed after, text = front ++ (blamed ++ after) ∧
      Gets line front passed (blamed ++ after) ∧ Misread (line + lineBreaks front) blamed after failure := by
  fun_induction scan line read text with
  | case1 => cases failed
  | case2 line read rest ih =>
      obtain ⟨front, passed, blamed, after, rfl, gets, misread⟩ := ih failed
      refine ⟨'\n' :: front, passed, blamed, after, rfl,
        gets_append line ['\n'] front _ [] passed (gets_blank line '\n' _ (by decide)) gets, ?_⟩
      rw [← List.singleton_append, line_breaks_append, ← Nat.add_assoc]
      exact misread
  | case3 line read c rest notBreak blank ih =>
      obtain ⟨front, passed, blamed, after, rfl, gets, misread⟩ := ih failed
      have none := blank_no_break c notBreak
      refine ⟨c :: front, passed, blamed, after, rfl,
        gets_append line [c] front _ [] passed (gets_blank line c _ blank) ?_, ?_⟩
      · rw [none]
        exact gets
      · rw [← List.singleton_append, line_breaks_append, none, Nat.zero_add]
        exact misread
  | case4 line read c rest _ solid other lexed =>
      cases failed
      obtain ⟨blamed, after, split, misread⟩ := misread_of_token_from line c rest failure
        (Bool.eq_false_of_not_eq_true solid) lexed
      exact ⟨[], [], blamed, after, split, gets_nil line _, misread⟩
  | case5 line read c rest _ solid token next after lexed ih =>
      obtain ⟨front, passed, blamed, behind, rfl, gets, misread⟩ := ih failed
      obtain ⟨spelled, split, -, last, first⟩ := token_gets line next c rest _ token
        (Bool.eq_false_of_not_eq_true solid) lexed
      rw [last] at gets misread
      refine ⟨spelled ++ front, _, blamed, behind, ?_, gets_append line spelled front _ _ passed first gets, ?_⟩
      · rw [split, List.append_assoc]
      · rw [line_breaks_append, ← Nat.add_assoc]
        exact misread

/-! Runs of commas. -/

-- Commas with the blanks between and after them, and no comma directly before the first.
structure CommaRun (front run : List Char) : Prop where
  starts : ∀ c ∈ run.head?, c = ','
  made : ∀ c ∈ run, c = ',' ∨ Text.isBlank c = true
  whole : ∀ earlier blanks, front = earlier ++ ',' :: blanks → ¬ ∀ c ∈ blanks, Text.isBlank c = true

theorem commas_spelled (text : List Char) (tokens : List Token) (lexes : Lexes text tokens)
    (commas : ∀ token ∈ tokens, token = .comma) : ∀ c ∈ text, c = ',' ∨ Text.isBlank c = true := by
  induction lexes with
  | done => exact List.forall_mem_nil _
  | blank c rest tokens blank _ ih => exact List.forall_mem_cons.mpr ⟨.inr blank, ih commas⟩
  | token text rest token tokens first _ ih =>
      obtain ⟨rfl, others⟩ := List.forall_mem_cons.mp commas
      cases first with
      | comma => exact List.forall_mem_cons.mpr ⟨.inl rfl, ih others⟩

theorem blanks_are_no_tokens (text : List Char) (tokens : List Token) (lexes : Lexes text tokens)
    (blank : ∀ c ∈ text, Text.isBlank c = true) : tokens = [] := by
  induction lexes with
  | done => rfl
  | blank c rest tokens _ _ ih => exact ih fun d member => blank d (List.mem_cons_of_mem c member)
  | token text rest token tokens first =>
      obtain ⟨c, others, rfl, solid⟩ := lexeme_solid text rest token first
      exact absurd ((blank c List.mem_cons_self).symm.trans solid) (by decide)

-- Quoted text ends with its quote, and words and numbers hold no comma.
theorem comma_spelling (token : Token) (spelled earlier blanks : List Char) (spells : Spelling token spelled)
    (split : spelled = earlier ++ ',' :: blanks) (blank : ∀ c ∈ blanks, Text.isBlank c = true) : token = .comma := by
  have member : ',' ∈ spelled := by
    rw [split]
    exact List.mem_append_right earlier List.mem_cons_self
  cases spells with
  | comma => rfl
  | opening => exact absurd member (by decide)
  | closing => exact absurd member (by decide)
  | text quoted content reads =>
      have last := congrArg List.getLast? split
      rw [← List.cons_append, List.getLast?_concat, List.getLast?_append_cons] at last
      rcases List.mem_cons.mp (List.mem_of_getLast? last.symm) with same | inside
      · exact absurd same (by decide)
      · exact absurd (blank '"' inside) (by decide)
  | word c letters first parts =>
      have part : WordPart ',' := by
        rcases List.mem_cons.mp member with same | inside
        · exact .inl (same ▸ first)
        · exact parts ',' inside
      exact absurd rfl (word_part_plain ',' part).notComma
  | number numeral value reads =>
      obtain ⟨-, inked⟩ := Decimal.numeral_inked spelled value (Decimal.shape_of_numeral spelled value reads)
      exact absurd rfl (inked_plain ',' (inked ',' member)).1.notComma

theorem comma_ends (text : List Char) (tokens : List Token) (lexes : Lexes text tokens) (earlier blanks : List Char)
    (split : text = earlier ++ ',' :: blanks) (blank : ∀ c ∈ blanks, Text.isBlank c = true) :
    tokens.getLast? = some .comma := by
  induction lexes generalizing earlier with
  | done => exact absurd split.symm (List.append_ne_nil_of_right_ne_nil earlier (List.cons_ne_nil ',' blanks))
  | blank c rest tokens first _ ih =>
      cases earlier with
      | nil =>
          obtain ⟨rfl, -⟩ := List.cons.inj split
          exact absurd first (by decide)
      | cons d earlier => exact ih earlier (List.cons.inj split).2
  | token text rest token tokens first later ih =>
      obtain ⟨spelled, rfl, spells, -⟩ := lexeme_spelled text rest token first
      have behind (more : List Char) (same : rest = more ++ ',' :: blanks) : (token :: tokens).getLast? = some .comma := by
        rw [List.getLast?_cons, ih more same]
        rfl
      rcases List.append_eq_append_iff.mp split with ⟨more, -, same⟩ | ⟨part, same, others⟩
      · exact behind more same
      · cases part with
        | nil => exact behind [] others.symm
        | cons c part =>
            obtain ⟨rfl, remaining⟩ := List.cons.inj others
            rw [remaining] at blank
            obtain ⟨within, outside⟩ := List.forall_mem_append.mp blank
            rw [blanks_are_no_tokens rest tokens later outside, comma_spelling token spelled earlier part spells same within]
            rfl

theorem comma_run (earlier gap : Tokens) (front run : List Char) (solid : Solid earlier)
    (commas : ∀ comma ∈ gap, comma.token = .comma) (starts : ∀ c ∈ run.head?, c = ',')
    (first : Lexes front (earlier.map Located.token)) (second : Lexes run (gap.map Located.token)) :
    CommaRun front run where
  starts := starts
  made := commas_spelled run _ second (List.forall_mem_map.mpr commas)
  whole := by
    intro before blanks split blank
    have last := comma_ends front _ first before blanks split blank
    rw [List.getLast?_map] at last
    obtain ⟨comma, ends, same⟩ := Option.map_eq_some_iff.mp last
    exact solid comma ends same

/-! Failures and the texts they blame. -/

-- Failures of the scanner.
inductive Lexical : ReadError → Prop where
  | badNumber (line : Nat) (text : String) : Lexical (.badNumber line text)
  | unterminatedString (line : Nat) : Lexical (.unterminatedString line)

-- A failure with the text that it blames, the text after that, and the line that it gives.
inductive Marks : ReadError → List Char → List Char → Nat → Prop where
  | token (failure : ReadError) (token : Token) (line : Nat) (blamed after : List Char)
      (accuses : Accuses failure token line) (spells : Spelling token blamed) : Marks failure blamed after line
  | number (line : Nat) (raw after : List Char) (malformed : Decimal.numeral? raw = none) :
      Marks (.badNumber line (String.ofList raw)) raw after line
  | quote (line : Nat) (after : List Char) (unclosed : Text.unquote after = none) :
      Marks (.unterminatedString line) ['"'] after line

-- In front of the blamed text nothing is wrong, and the text up to its end is refused for this reason.
structure Points (first : Nat) (text : String) (failure : ReadError) (before blamed after : List Char) : Prop where
  split : text.toList = before ++ (blamed ++ after)
  lexed : ∃ located, tokenize (String.ofList before) = .ok located
  read : ¬ Lexical failure → Incomplete (Game.parse first (String.ofList before))
  refused : Game.parse first (String.ofList (before ++ blamed)) = .error failure

-- The line is that of the first of the commas before a count, which is an earlier one.
structure AtCommas (failure : ReadError) (front run blamed : List Char) (line : Nat) : Prop where
  commas : CommaRun front run
  breaks : '\n' ∈ run
  count : ∃ token, Spelling token blamed ∧ OfCount failure token
  line : line = 1 + lineBreaks front

theorem gets_tokens (text : List Char) (passed : Tokens) (rest : List Char) (gets : Gets 1 text passed rest) :
    tokenize (String.ofList text) = .ok passed := by
  have run := gets [] [] List.nil_prefix
  rw [List.append_nil, List.append_nil] at run
  rw [tokenize, String.toList_ofList, run, scan, List.reverse_reverse]

theorem lexical_points (first : Nat) (text : String) (failure : ReadError) (failed : tokenize text = .error failure) :
    ∃ before blamed after, Points first text failure before blamed after ∧
      Marks failure blamed after (1 + lineBreaks before) := by
  obtain ⟨before, passed, blamed, after, split, gets, misread⟩ := scan_fails 1 [] text.toList failure failed
  have stops : tokenize (String.ofList (before ++ blamed)) = .error failure := by
    rw [tokenize, String.toList_ofList, gets [] blamed (List.prefix_append blamed after)]
    exact misread_fails _ _ blamed after failure misread
  refine ⟨before, blamed, after, ?_, ?_⟩
  · exact {
      split
      lexed := ⟨passed, gets_tokens before passed _ gets⟩
      read := fun token => by
        cases misread with
        | number c run => exact absurd (.badNumber _ _) token
        | text => exact absurd (.unterminatedString _) token
      refused := by
        rw [Game.parse, stops]
        rfl }
  · cases misread with
    | number c run _ _ _ _ _ malformed => exact .number _ (c :: run) after malformed
    | text _ unclosed => exact .quote _ after unclosed

theorem parse_incomplete (first : Nat) (text : String) (located : Tokens) (lexed : tokenize text = .ok located)
    (incomplete : Incomplete (readDescription located)) : Incomplete (Game.parse first text) := by
  rw [Game.parse, lexed, ok_bind]
  rcases incomplete with ⟨description, read⟩ | ⟨expected, cut⟩
  · rw [read]
    exact .inl ⟨_, rfl⟩
  · rw [cut]
    exact .inr ⟨expected, rfl⟩

-- The commas of a gap start where the first of them stands.
theorem gap_run (before : List Char) (earlier gap : Tokens) (comma : Located) (later : Tokens)
    (same : gap = comma :: later) (commas : ∀ comma ∈ gap, comma.token = .comma) (solid : Solid earlier)
    (lexed : tokenize (String.ofList before) = .ok (earlier ++ gap)) :
    ∃ front run, before = front ++ run ∧ CommaRun front run ∧ comma.line = 1 + lineBreaks front := by
  subst same
  rw [tokenize, String.toList_ofList] at lexed
  obtain ⟨front, blamed, after, rfl, stands⟩ := scan_splits 1 [] before earlier later comma lexed
  have token := commas comma List.mem_cons_self
  have spelled := stands.spells
  rw [token] at spelled
  have scanned : scan (1 + lineBreaks front) earlier.reverse (blamed ++ after) = .ok (earlier ++ comma :: later) := by
    have run := stands.gets [] (blamed ++ after) List.prefix_rfl
    rw [List.append_nil] at run
    rw [← run, lexed]
  obtain ⟨others, split, lexes⟩ := scan_lexes _ _ _ _ scanned
  rw [List.reverse_reverse, List.append_cancel_left_eq] at split
  subst split
  have fronted := gets_tokens front earlier _ stands.gets
  have frontLexes := (tokenize_iff (String.ofList front) _).mp ⟨earlier, fronted, rfl⟩
  rw [String.toList_ofList] at frontLexes
  refine ⟨front, blamed ++ after, rfl, comma_run earlier _ front _ solid commas ?_ frontLexes lexes, stands.place⟩
  cases spelled with
  | comma => exact fun c first => (Option.some.inj first).symm

theorem token_points (first : Nat) (text : String) (located : Tokens) (failure : ReadError)
    (lexed : tokenize text = .ok located) (failed : readDescription located = .error failure)
    (placed : Placed failure) : ∃ before blamed after line, Points first text failure before blamed after ∧
      Marks failure blamed after line ∧ (line = 1 + lineBreaks before ∨
        ∃ front run, before = front ++ run ∧ AtCommas failure front run blamed line) := by
  obtain ⟨earlier, gap, found, later, rfl, blames, incomplete, again⟩ := description_refuses located failure failed placed
  rw [← List.append_assoc] at lexed
  obtain ⟨before, blamed, after, split, stands⟩ := scan_splits 1 [] text.toList (earlier ++ gap) later found lexed
  have fronted := gets_tokens before _ _ stands.gets
  have through : tokenize (String.ofList (before ++ blamed)) = .ok (earlier ++ (gap ++ [found])) := by
    rw [tokenize, String.toList_ofList, stands.gets [] blamed (List.prefix_append blamed after), ← stands.place]
    have taken := stands.taken (earlier ++ gap).reverse [] List.nil_prefix
    rw [List.append_nil] at taken
    rw [List.append_nil, taken, scan]
    simp
  refine ⟨before, blamed, after, lineOf (gap ++ [found]), ?_, ?_, ?_⟩
  · exact {
      split
      lexed := ⟨_, fronted⟩
      read := fun _ => parse_incomplete first _ _ fronted incomplete
      refused := by
        rw [Game.parse, through, ok_bind, again []]
        rfl }
  · exact .token failure found.token _ blamed after blames.accuses stands.spells
  · cases same : gap with
    | nil => exact .inl stands.place
    | cons comma others =>
        have some : gap ≠ [] := by rw [same]; exact List.cons_ne_nil comma others
        have count := blames.counts some
        obtain ⟨front, run, split, commas, place⟩ :=
          gap_run before earlier gap comma others same blames.commas (blames.solid count) fronted
        by_cases breaks : '\n' ∈ run
        · exact .inr ⟨front, run, split, commas, breaks, ⟨found.token, stands.spells, count⟩, place⟩
        · have none : lineBreaks run = 0 := List.count_eq_zero.mpr breaks
          refine .inl ?_
          rw [split, line_breaks_append, none]
          exact place

end File

namespace Game

open File

-- Only a count that is refused after commas on earlier lines is said to stand where these start.
theorem failures_point_at_their_tokens (first : Nat) (text : String) (failure : ReadError)
    (placed : Placed failure) (refused : Game.parse first text = .error failure) :
    ∃ before blamed after line, Points first text failure before blamed after ∧ Marks failure blamed after line ∧
      (line = 1 + lineBreaks before ∨
        ∃ front run, before = front ++ run ∧ AtCommas failure front run blamed line) := by
  rw [Game.parse] at refused
  cases lexed : tokenize text with
  | error other =>
      rw [lexed] at refused
      cases refused
      obtain ⟨before, blamed, after, points, marks⟩ := lexical_points first text failure lexed
      exact ⟨before, blamed, after, _, points, marks, .inl rfl⟩
  | ok located =>
      rw [lexed, ok_bind] at refused
      cases read : readDescription located with
      | ok description =>
          rw [read] at refused
          cases refused
      | error other =>
          rw [read] at refused
          cases refused
          exact token_points first text located failure lexed read placed

-- The number stands in the third line.
theorem failures_point_at_their_tokens_number :
    Placed (.unexpected 3 "player names" "number 5") ∧
    Game.parse 0 "NFG 1 R\n\"t\"\n\x7b 5 \x7d" = .error (.unexpected 3 "player names" "number 5") ∧
    ∃ before blamed after, Points 0 "NFG 1 R\n\"t\"\n\x7b 5 \x7d" (.unexpected 3 "player names" "number 5") before
      blamed after ∧ 3 = 1 + lineBreaks before := by
  have scanned : tokenize "NFG 1 R\n\"t\"\n\x7b 5 \x7d" = .ok [⟨.word "NFG", 1⟩, ⟨.number 1, 1⟩, ⟨.word "R", 1⟩,
      ⟨.text "t", 2⟩, ⟨.opening, 3⟩, ⟨.number 5, 3⟩, ⟨.closing, 3⟩] := by cbv
  have read : readDescription [⟨.word "NFG", 1⟩, ⟨.number 1, 1⟩, ⟨.word "R", 1⟩, ⟨.text "t", 2⟩, ⟨.opening, 3⟩,
      ⟨.number 5, 3⟩, ⟨.closing, 3⟩] = .error (.unexpected 3 "player names" (Token.number 5).describe) := rfl
  have digits : Decimal.fraction 5 = ['5'] := by decide +kernel
  have described : (Token.number 5).describe = "number 5" := by
    rw [Token.describe, digits]
    rfl
  have refused : Game.parse 0 "NFG 1 R\n\"t\"\n\x7b 5 \x7d" = .error (.unexpected 3 "player names" "number 5") := by
    rw [Game.parse, scanned, ok_bind, read, described]
    rfl
  have placed : Placed (.unexpected 3 "player names" "number 5") := .unexpected 3 _ _
  obtain ⟨before, blamed, after, line, points, marks, place⟩ := failures_point_at_their_tokens 0 _ _ placed refused
  refine ⟨placed, refused, before, blamed, after, points, ?_⟩
  obtain rfl : line = 3 := by
    generalize same : ReadError.unexpected 3 "player names" "number 5" = failure at marks
    cases marks with
    | token _ token line _ _ accuses =>
        cases accuses with
        | unexpected => exact (ReadError.unexpected.inj same).1.symm
        | unknownOutcome => cases same
    | number => cases same
    | quote => cases same
  rcases place with place | ⟨front, run, -, commas⟩
  · exact place
  · obtain ⟨token, -, count⟩ := commas.count
    cases count with
    | unexpected _ _ _ _ counts => exact absurd counts (by decide)

-- The count stands in the second line, and the comma before it in the first.
theorem count_points_at_comma :
    Game.parse 0 "NFG 1 R \"t\" \x7b \"a\" \x7d \x7b ,\n -1 \x7d" =
      .error (.unexpected 1 "strategy count" "number -1") ∧
    "NFG 1 R \"t\" \x7b \"a\" \x7d \x7b ,\n -1 \x7d".toList =
      "NFG 1 R \"t\" \x7b \"a\" \x7d \x7b ,\n ".toList ++ ("-1".toList ++ " \x7d".toList) ∧
    1 + lineBreaks "NFG 1 R \"t\" \x7b \"a\" \x7d \x7b ,\n ".toList = 2 := by
  have scanned : tokenize "NFG 1 R \"t\" \x7b \"a\" \x7d \x7b ,\n -1 \x7d" = .ok [⟨.word "NFG", 1⟩,
      ⟨.number 1, 1⟩, ⟨.word "R", 1⟩, ⟨.text "t", 1⟩, ⟨.opening, 1⟩, ⟨.text "a", 1⟩, ⟨.closing, 1⟩, ⟨.opening, 1⟩,
      ⟨.comma, 1⟩, ⟨.number (-1), 2⟩, ⟨.closing, 2⟩] := by cbv
  have read : readDescription [⟨.word "NFG", 1⟩, ⟨.number 1, 1⟩, ⟨.word "R", 1⟩, ⟨.text "t", 1⟩, ⟨.opening, 1⟩,
      ⟨.text "a", 1⟩, ⟨.closing, 1⟩, ⟨.opening, 1⟩, ⟨.comma, 1⟩, ⟨.number (-1), 2⟩, ⟨.closing, 2⟩] =
        .error (.unexpected 1 "strategy count" (Token.number (-1)).describe) := rfl
  have digits : Decimal.fraction (-1) = ['-', '1'] := by decide +kernel
  have described : (Token.number (-1)).describe = "number -1" := by
    rw [Token.describe, digits]
    rfl
  refine ⟨?_, by decide, by decide⟩
  rw [Game.parse, scanned, ok_bind, read, described]
  rfl

end Game

end NormalForm
