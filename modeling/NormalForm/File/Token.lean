import NormalForm.Decimal.Numeral
import NormalForm.File.ReadError
import NormalForm.Text.Blank
import NormalForm.Text.Quoted

/-!
Tokens of a game file, each with the line on which it starts. Blanks and line breaks separate tokens
and mean nothing else.
-/

set_option autoImplicit false

namespace NormalForm.File

inductive Token where
  | word (letters : String)
  | text (content : String)
  | number (value : Rat)
  | opening
  | closing
  | comma
deriving DecidableEq, Repr

structure Located where
  token : Token
  line : Nat
deriving DecidableEq, Repr

def backquoted (text : String) : String := "`" ++ text ++ "`"

def Token.describe : Token → String
  | word letters => backquoted letters
  | text content => "string \"" ++ content ++ "\""
  | number value => "number " ++ String.ofList (Decimal.fraction value)
  | opening => backquoted "\x7b"
  | closing => backquoted "\x7d"
  | comma => backquoted ","

def isLetter (c : Char) : Bool := ('a' ≤ c && c ≤ 'z') || ('A' ≤ c && c ≤ 'Z')

def isWordChar (c : Char) : Bool := isLetter c || Decimal.isDigit c || c == '_'

def mark? (c : Char) : Option Token :=
  if c = '{' then some .opening
  else if c = '}' then some .closing
  else if c = ',' then some .comma
  else none

def isNumberChar (c : Char) : Bool := !(Text.isBlank c || (mark? c).isSome || c == '"')

def lineBreaks (text : List Char) : Nat := text.count '\n'

-- The token that starts with `c`, a character other than a blank, and the text after it.
def tokenFrom (line : Nat) (c : Char) (rest : List Char) :
    Except ReadError (Token × Nat × List Char) :=
  match mark? c with
  | some token => .ok (token, line, rest)
  | none =>
      if c = '"' then
        match Text.unquote rest with
        | none => .error (.unterminatedString line)
        | some (content, after) =>
            .ok (.text (String.ofList content), line + lineBreaks content, after)
      else if isLetter c then
        .ok (.word (String.ofList (c :: rest.takeWhile isWordChar)), line, rest.dropWhile isWordChar)
      else
        let raw := c :: rest.takeWhile isNumberChar
        match Decimal.numeral? raw with
        | some value => .ok (.number value, line, rest.dropWhile isNumberChar)
        | none => .error (.badNumber line (String.ofList raw))

theorem unquote_length (text content after : List Char)
    (closed : Text.unquote text = some (content, after)) : after.length ≤ text.length := by
  fun_induction Text.unquote text generalizing content with
  | case1 => simp at closed
  | case2 rest =>
      obtain ⟨-, rfl⟩ := Prod.mk.inj (Option.some.inj closed)
      simp
  | case3 => simp at closed
  | case4 c rest hyp =>
      obtain ⟨⟨inner, remaining⟩, innerClosed, same⟩ := Option.map_eq_some_iff.mp closed
      obtain ⟨-, rfl⟩ := Prod.mk.inj same
      have shorter := hyp inner innerClosed
      simp only [List.length_cons]
      omega
  | case5 c rest _ _ _ hyp =>
      obtain ⟨⟨inner, remaining⟩, innerClosed, same⟩ := Option.map_eq_some_iff.mp closed
      obtain ⟨-, rfl⟩ := Prod.mk.inj same
      have shorter := hyp inner innerClosed
      simp only [List.length_cons]
      omega

theorem token_from_length (line : Nat) (c : Char) (rest : List Char) (token : Token) (next : Nat)
    (after : List Char) (read : tokenFrom line c rest = .ok (token, next, after)) :
    after.length ≤ rest.length := by
  unfold tokenFrom at read
  split at read
  · cases read
    exact Nat.le_refl _
  · split at read
    · split at read
      · cases read
      · rename_i content remaining closed
        cases read
        exact unquote_length rest content _ closed
    · split at read
      · cases read
        exact (List.dropWhile_suffix isWordChar).length_le
      · dsimp only at read
        split at read
        · cases read
          exact (List.dropWhile_suffix isNumberChar).length_le
        · cases read

-- The tokens of a text after those already read, which come last first.
def scan (line : Nat) (read : List Located) (text : List Char) : Except ReadError (List Located) :=
  match text with
  | [] => .ok read.reverse
  | c :: rest =>
      if c = '\n' then scan (line + 1) read rest
      else if Text.isBlank c then scan line read rest
      else
        match _found : tokenFrom line c rest with
        | .error failure => .error failure
        | .ok (token, next, after) => scan next (⟨token, line⟩ :: read) after
termination_by text.length
decreasing_by
  · simp
  · simp
  · have shorter := token_from_length line c rest token next after _found
    simp only [List.length_cons]
    omega

def tokenize (text : String) : Except ReadError (List Located) := scan 1 [] text.toList

end NormalForm.File
