import NormalForm.File.Token
import NormalForm.Proofs.Decimal.RoundTrip

/-!
Tokens of written text. A text yields tokens when reading it adds them, whatever was read before and
whatever follows; such texts can be put one after another.
-/

set_option autoImplicit false

namespace NormalForm.File

open Text Decimal

def Yields (text : List Char) (tokens : List Token) : Prop :=
  ∀ line read rest, ∃ (last : Nat) (located : List Located), located.map Located.token = tokens ∧
    scan line read (text ++ rest) = scan last (located.reverse ++ read) rest

theorem yields_nil : Yields [] [] := fun line _ _ => ⟨line, [], rfl, rfl⟩

theorem yields_append (first second : List Char) (left right : List Token) (here : Yields first left)
    (later : Yields second right) : Yields (first ++ second) (left ++ right) := by
  intro line read rest
  obtain ⟨middle, locatedLeft, sameLeft, runLeft⟩ := here line read (second ++ rest)
  obtain ⟨last, locatedRight, sameRight, runRight⟩ := later middle (locatedLeft.reverse ++ read) rest
  refine ⟨last, locatedLeft ++ locatedRight, by rw [List.map_append, sameLeft, sameRight], ?_⟩
  rw [List.append_assoc, runLeft, runRight, List.reverse_append, List.append_assoc]

theorem yields_flat_map {β : Type} (items : List β) (text : β → List Char) (tokens : β → List Token)
    (each : ∀ item ∈ items, Yields (text item) (tokens item)) :
    Yields (items.flatMap text) (items.flatMap tokens) := by
  induction items with
  | nil => exact yields_nil
  | cons first rest ih =>
      rw [List.flatMap_cons, List.flatMap_cons]
      exact yields_append _ _ _ _ (each first List.mem_cons_self)
        (ih fun item member => each item (List.mem_cons_of_mem first member))

theorem yields_blank (c : Char) (blank : isBlank c = true) : Yields [c] [] := by
  intro line read rest
  by_cases lineBreak : c = '\n'
  · refine ⟨line + 1, [], rfl, ?_⟩
    rw [List.singleton_append, scan, if_pos lineBreak]
    rfl
  · refine ⟨line, [], rfl, ?_⟩
    rw [List.singleton_append, scan, if_neg lineBreak, if_pos blank]
    rfl

-- One step of the scanner that takes a token.
theorem scan_token (line last : Nat) (read : List Located) (c : Char) (rest after : List Char) (token : Token)
    (solid : isBlank c = false) (found : tokenFrom line c rest = .ok (token, last, after)) :
    scan line read (c :: rest) = scan last (⟨token, line⟩ :: read) after := by
  have notBreak : c ≠ '\n' := by
    rintro rfl
    exact absurd solid (by decide)
  rw [scan, if_neg notBreak, solid, if_neg Bool.false_ne_true]
  split
  · rename_i failure refused
    cases found.symm.trans refused
  · rename_i token' last' after' taken
    cases found.symm.trans taken
    rfl

theorem yields_mark (c : Char) (token : Token) (mark : mark? c = some token) (solid : isBlank c = false) :
    Yields [c] [token] := by
  intro line read rest
  have found : tokenFrom line c rest = .ok (token, line, rest) := by
    rw [tokenFrom, mark]
  exact ⟨line, [⟨token, line⟩], rfl, scan_token line line read c rest rest token solid found⟩

theorem yields_quote (content : String) : Yields (quote content).toList [.text content] := by
  intro line read rest
  have written : (quote content).toList ++ rest = '"' :: (escapeChars content.toList ++ '"' :: rest) := by
    simp [quote, escape]
  have found : tokenFrom line '"' (escapeChars content.toList ++ '"' :: rest) =
      .ok (.text content, line + lineBreaks content.toList, rest) := by
    have noMark : mark? '"' = none := by decide
    rw [tokenFrom, noMark]
    simp only [if_true, unquote_escape, String.ofList_toList]
  refine ⟨line + lineBreaks content.toList, [⟨.text content, line⟩], rfl, ?_⟩
  rw [written]
  exact scan_token line _ read _ _ rest _ (by decide) found

/-! Words and numbers end where a character follows that cannot go on with them. -/

theorem yields_word_before (letters : List Char) (c stop : Char) (more : List Char) (tokens : List Token)
    (letter : isLetter c = true) (noMark : mark? c = none) (notQuote : c ≠ '"') (solid : isBlank c = false)
    (goes : ∀ d ∈ letters, isWordChar d = true) (stops : isWordChar stop = false)
    (later : Yields (stop :: more) tokens) :
    Yields (c :: letters ++ stop :: more) (.word (String.ofList (c :: letters)) :: tokens) := by
  intro line read rest
  have found : tokenFrom line c (letters ++ (stop :: more ++ rest)) =
      .ok (.word (String.ofList (c :: letters)), line, stop :: more ++ rest) := by
    rw [tokenFrom, noMark]
    simp only [if_neg notQuote, letter, if_true, List.takeWhile_append_of_pos goes,
      List.dropWhile_append_of_pos goes, List.cons_append, List.takeWhile_cons, List.dropWhile_cons, stops,
      Bool.false_eq_true, if_false, List.append_nil]
  obtain ⟨last, located, same, run⟩ := later line (⟨.word (String.ofList (c :: letters)), line⟩ :: read) rest
  refine ⟨last, ⟨.word (String.ofList (c :: letters)), line⟩ :: located, by rw [List.map_cons, same], ?_⟩
  rw [List.append_assoc, List.cons_append, scan_token line line read c _ _ _ solid found, run]
  simp

-- Each character of a numeral can start a number and go on with one.
structure Numeric (c : Char) : Prop where
  goes : isNumberChar c = true
  notLetter : isLetter c = false
  noMark : mark? c = none
  notQuote : c ≠ '"'
  solid : isBlank c = false

theorem numeric_of_numeral_char (c : Char) (written : isNumeralChar c = true) : Numeric c := by
  have below : c.toNat < 128 := by
    simp only [isNumeralChar, isDigit, Bool.or_eq_true, Bool.and_eq_true, decide_eq_true_eq, beq_iff_eq] at written
    rcases written with ((⟨-, small⟩ | same) | same) | same
    · exact Nat.lt_of_le_of_lt small (by decide)
    · rw [same]
      decide
    · rw [same]
      decide
    · rw [same]
      decide
  have all : ∀ n < 128, isNumeralChar (Char.ofNat n) = true →
      isNumberChar (Char.ofNat n) = true ∧ isLetter (Char.ofNat n) = false ∧
        mark? (Char.ofNat n) = none ∧ Char.ofNat n ≠ '"' ∧ isBlank (Char.ofNat n) = false := by
    decide +kernel
  have here := all c.toNat below
  rw [Char.ofNat_toNat] at here
  obtain ⟨goes, notLetter, noMark, notQuote, solid⟩ := here written
  exact ⟨goes, notLetter, noMark, notQuote, solid⟩

theorem yields_number_before (numeral : List Char) (value : Rat) (stop : Char) (more : List Char)
    (tokens : List Token) (denotes : Denotes numeral value) (stops : isNumberChar stop = false)
    (later : Yields (stop :: more) tokens) : Yields (numeral ++ stop :: more) (.number value :: tokens) := by
  obtain ⟨c, digits, starts⟩ := List.exists_cons_of_ne_nil denotes.nonempty
  have numeric : ∀ d ∈ c :: digits, Numeric d := fun d member =>
    numeric_of_numeral_char d (denotes.chars d (starts ▸ member))
  have first := numeric c List.mem_cons_self
  have goes : ∀ d ∈ digits, isNumberChar d = true := fun d member =>
    (numeric d (List.mem_cons_of_mem c member)).goes
  intro line read rest
  have found : tokenFrom line c (digits ++ (stop :: more ++ rest)) =
      .ok (.number value, line, stop :: more ++ rest) := by
    rw [tokenFrom, first.noMark]
    simp only [if_neg first.notQuote, first.notLetter, Bool.false_eq_true, if_false,
      List.takeWhile_append_of_pos goes, List.dropWhile_append_of_pos goes, List.cons_append,
      List.takeWhile_cons, List.dropWhile_cons, stops, List.append_nil, ← starts, denotes.value]
  obtain ⟨last, located, same, run⟩ := later line (⟨.number value, line⟩ :: read) rest
  refine ⟨last, ⟨.number value, line⟩ :: located, by rw [List.map_cons, same], ?_⟩
  rw [starts, List.append_assoc, List.cons_append, scan_token line line read c _ _ _ first.solid found, run]
  simp

theorem tokenize_yields (text : String) (tokens : List Token) (yields : Yields text.toList tokens) :
    ∃ located, tokenize text = .ok located ∧ located.map Located.token = tokens := by
  obtain ⟨last, located, same, run⟩ := yields 1 [] []
  refine ⟨located, ?_, same⟩
  rw [List.append_nil, List.append_nil] at run
  rw [tokenize, run, scan, List.reverse_reverse]

end NormalForm.File
