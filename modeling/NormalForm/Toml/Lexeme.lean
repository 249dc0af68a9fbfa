import NormalForm.Binary64.Decimal
import NormalForm.Toml.Value

/-!
The smallest parts of a settings file: blanks, comments, line ends, keys, strings, numbers and moments
of time. Each reader takes text and gives what it read with the text after it, or nothing.
-/

set_option autoImplicit false

namespace NormalForm.Toml

open NormalForm.Decimal

abbrev Chars := List Char

def isSpace (c : Char) : Bool := c == ' ' || c == '\t'

def skipSpace (text : Chars) : Chars := text.dropWhile isSpace

-- Characters that may stand in a comment: no control character but the tab.
def isPlain (c : Char) : Bool := c == '\t' || (0x20 ≤ c.toNat && c.toNat != 0x7F)

def newline? : Chars → Option Chars
  | '\n' :: rest => some rest
  | '\r' :: '\n' :: rest => some rest
  | _ => none

def skipComment : Chars → Chars
  | '#' :: rest => rest.dropWhile isPlain
  | text => text

-- Blanks and a comment up to the end of the line or of the text.
def endOfLine? (text : Chars) : Option Chars :=
  match skipComment (skipSpace text) with
  | [] => some []
  | rest => newline? rest

def isHex (c : Char) : Bool := isDigit c || ('a' ≤ c && c ≤ 'f') || ('A' ≤ c && c ≤ 'F')

def hexValue (c : Char) : Nat :=
  if isDigit c then c.toNat - 48 else if 'a' ≤ c then c.toNat - 87 else c.toNat - 55

def inBase (base : Nat) (digits : Chars) : Nat :=
  digits.foldl (fun value c => base * value + hexValue c) 0

def codePoint? (count : Nat) (text : Chars) : Option (Char × Chars) :=
  let digits := text.take count
  let code := inBase 16 digits
  if digits.length = count ∧ digits.all isHex ∧ code.isValidChar then
    some (Char.ofNat code, text.drop count)
  else none

def escaped? : Chars → Option (Char × Chars)
  | 'b' :: rest => some ('\x08', rest)
  | 't' :: rest => some ('\t', rest)
  | 'n' :: rest => some ('\n', rest)
  | 'f' :: rest => some ('\x0c', rest)
  | 'r' :: rest => some ('\r', rest)
  | '"' :: rest => some ('"', rest)
  | '\\' :: rest => some ('\\', rest)
  | 'u' :: rest => codePoint? 4 rest
  | 'U' :: rest => codePoint? 8 rest
  | _ => none

-- The rest of a string of one line, after the opening quote.
def basicRest? : Nat → Chars → Option (Chars × Chars)
  | 0, _ => none
  | budget + 1, text =>
      match text with
      | [] => none
      | '"' :: rest => some ([], rest)
      | '\\' :: rest => do
          let (c, rest) ← escaped? rest
          let (content, after) ← basicRest? budget rest
          some (c :: content, after)
      | c :: rest =>
          if isPlain c then do
            let (content, after) ← basicRest? budget rest
            some (c :: content, after)
          else none

def literalRest? (text : Chars) : Option (Chars × Chars) :=
  let content := text.takeWhile fun c => isPlain c && c != '\''
  match text.drop content.length with
  | '\'' :: rest => some (content, rest)
  | _ => none

def skipWide : Chars → Chars
  | '\n' :: rest => skipWide rest
  | '\r' :: '\n' :: rest => skipWide rest
  | c :: rest => if isSpace c then skipWide rest else c :: rest
  | [] => []

-- Blanks and line ends after a backslash that ends a line, at least one line end among them.
def skipLineEnd? (text : Chars) : Option Chars := do
  let rest ← newline? (skipSpace text)
  some (skipWide rest)

-- The end of a string in three quotes: up to two more quotes may belong to the content.
def closing? (quote : Char) (text : Chars) : Option (Chars × Chars) :=
  let quotes := (text.takeWhile fun c => c == quote).length
  if 3 ≤ quotes then
    let content := min (quotes - 3) 2
    some (List.replicate content quote, text.drop (content + 3))
  else none

-- The rest of a string in three quotes; `escapes` says whether a backslash means anything.
def longRest? (quote : Char) (escapes : Bool) : Nat → Chars → Option (Chars × Chars)
  | 0, _ => none
  | budget + 1, text =>
      match closing? quote text with
      | some result => some result
      | none =>
          match text with
          | [] => none
          | c :: rest =>
              if escapes && c == '\\' then
                match skipLineEnd? rest with
                | some rest => longRest? quote escapes budget rest
                | none => do
                    let (c, rest) ← escaped? rest
                    let (content, after) ← longRest? quote escapes budget rest
                    some (c :: content, after)
              else
                match newline? text with
                | some rest => do
                    let (content, after) ← longRest? quote escapes budget rest
                    some ('\n' :: content, after)
                | none =>
                    if isPlain c then do
                      let (content, after) ← longRest? quote escapes budget rest
                      some (c :: content, after)
                    else none

def skipNewline (text : Chars) : Chars := (newline? text).getD text

def string? (text : Chars) : Option (Chars × Chars) :=
  match text with
  | '"' :: '"' :: '"' :: rest => longRest? '"' true (rest.length + 1) (skipNewline rest)
  | '\'' :: '\'' :: '\'' :: rest => longRest? '\'' false (rest.length + 1) (skipNewline rest)
  | '"' :: rest => basicRest? (rest.length + 1) rest
  | '\'' :: rest => literalRest? rest
  | _ => none

def isKeyChar (c : Char) : Bool :=
  isDigit c || ('a' ≤ c && c ≤ 'z') || ('A' ≤ c && c ≤ 'Z') || c == '_' || c == '-'

def keyPart? (text : Chars) : Option (String × Chars) := do
  let (name, rest) ← match text with
    | '"' :: rest => basicRest? (rest.length + 1) rest
    | '\'' :: rest => literalRest? rest
    | _ =>
        let name := text.takeWhile isKeyChar
        if name.isEmpty then none else some (name, text.drop name.length)
  some (String.ofList name, rest)

def keyParts? : Nat → Chars → Option (List String × Chars)
  | 0, _ => none
  | budget + 1, text => do
      let (part, rest) ← keyPart? (skipSpace text)
      match skipSpace rest with
      | '.' :: more => do
          let (parts, after) ← keyParts? budget more
          some (part :: parts, after)
      | rest => some ([part], rest)

def maxDepth : Nat := 80

def key? (text : Chars) : Option (List String × Chars) := do
  let (parts, rest) ← keyParts? (text.length + 1) text
  if parts.length < maxDepth then some (parts, rest) else none

-- Digits in groups: every underscore stands between two digits.
def grouped? (accepts : Char → Bool) (text : Chars) : Option (Chars × Chars) :=
  let run := text.takeWhile fun c => accepts c || c == '_'
  let rec wellPlaced : Chars → Bool
    | '_' :: '_' :: _ => false
    | ['_'] => false
    | _ :: more => wellPlaced more
    | [] => true
  match run with
  | [] => none
  | first :: _ =>
      if first != '_' && wellPlaced run then
        some (run.filter fun c => c != '_', text.drop run.length)
      else none

def sign (text : Chars) : Bool × Chars :=
  match text with
  | '-' :: rest => (true, rest)
  | '+' :: rest => (false, rest)
  | _ => (false, text)

def whole? (text : Chars) : Option (Chars × Chars) :=
  match text with
  | '0' :: rest => some (['0'], rest)
  | _ => grouped? isDigit text

def signed (negative : Bool) (size : Nat) : Int := if negative then -(size : Int) else size

def admitInteger (value : Int) : Option Value :=
  if -(Nat.pow 2 63 : Int) ≤ value ∧ value < Nat.pow 2 63 then some (.integer value) else none

def based? (base : Nat) (accepts : Char → Bool) (text : Chars) : Option (Value × Chars) := do
  let (digits, rest) ← grouped? accepts text
  let value ← admitInteger (inBase base digits)
  some (value, rest)

def integer? (text : Chars) : Option (Value × Chars) :=
  match text with
  | '0' :: 'x' :: rest => based? 16 isHex rest
  | '0' :: 'o' :: rest => based? 8 (fun c => '0' ≤ c && c ≤ '7') rest
  | '0' :: 'b' :: rest => based? 2 (fun c => c == '0' || c == '1') rest
  | _ => do
      let (negative, unsigned) := sign text
      let (digits, rest) ← whole? unsigned
      let value ← admitInteger (signed negative (valueOf digits))
      some (value, rest)

def exponent? (text : Chars) : Option (Int × Chars) := do
  let (negative, unsigned) := sign text
  let (digits, rest) ← grouped? isDigit unsigned
  some (signed negative (valueOf digits), rest)

-- A number with a fraction, an exponent or both; nothing if it has neither, and `none` inside if it
-- is too large.
def decimalFloat? (text : Chars) : Option (Option Value × Chars) := do
  let (negative, unsigned) := sign text
  let (whole, rest) ← whole? unsigned
  let (fraction, rest) ← match rest with
    | '.' :: more => grouped? isDigit more
    | _ => some ([], rest)
  let (power, rest) ← match rest with
    | 'e' :: more => exponent? more
    | 'E' :: more => exponent? more
    | _ => if fraction.isEmpty then none else some (0, rest)
  let size := Binary64.ofScientific (valueOf (whole ++ fraction)) (power - fraction.length)
  if negative then some (some (.float (-size)), rest)
  else some (if size == Binary64.infinity then none else some (.float size), rest)

def specialFloat? (text : Chars) : Option (Value × Chars) :=
  let (negative, unsigned) := sign text
  let signedValue (size : Float) : Value := .float (if negative then -size else size)
  match unsigned with
  | 'i' :: 'n' :: 'f' :: rest => some (signedValue Binary64.infinity, rest)
  | 'n' :: 'a' :: 'n' :: rest => some (signedValue (Binary64.infinity - Binary64.infinity), rest)
  | _ => none

def digitsWithin? (count low high : Nat) (text : Chars) : Option (Nat × Chars) :=
  let digits := text.take count
  let value := valueOf digits
  if digits.length = count ∧ digits.all isDigit ∧ low ≤ value ∧ value ≤ high then
    some (value, text.drop count)
  else none

def expectChar? (c : Char) (text : Chars) : Option Chars :=
  match text with
  | first :: rest => if first = c then some rest else none
  | [] => none

def daysIn (year month : Nat) : Nat :=
  if month = 2 then
    if year % 4 = 0 ∧ (year % 100 ≠ 0 ∨ year % 400 = 0) then 29 else 28
  else if month = 4 ∨ month = 6 ∨ month = 9 ∨ month = 11 then 30 else 31

def date? (text : Chars) : Option Chars := do
  let (year, rest) ← digitsWithin? 4 0 9999 text
  let rest ← expectChar? '-' rest
  let (month, rest) ← digitsWithin? 2 1 12 rest
  let rest ← expectChar? '-' rest
  let (_, rest) ← digitsWithin? 2 1 (daysIn year month) rest
  some rest

def time? (text : Chars) : Option Chars := do
  let (_, rest) ← digitsWithin? 2 0 23 text
  let rest ← expectChar? ':' rest
  let (_, rest) ← digitsWithin? 2 0 59 rest
  let rest ← expectChar? ':' rest
  let (_, rest) ← digitsWithin? 2 0 60 rest
  match rest with
  | '.' :: more =>
      let fraction := more.takeWhile isDigit
      if fraction.isEmpty then none else some (more.drop fraction.length)
  | _ => some rest

def zone? (text : Chars) : Option Chars :=
  let offset (more : Chars) : Option Chars := do
    let (_, rest) ← digitsWithin? 2 0 23 more
    let rest ← expectChar? ':' rest
    let (_, rest) ← digitsWithin? 2 0 59 rest
    some rest
  match text with
  | 'Z' :: rest => some rest
  | 'z' :: rest => some rest
  | '+' :: rest => offset rest
  | '-' :: rest => offset rest
  | _ => some text

-- A date, a time of day, or both with an optional zone.
def moment? (text : Chars) : Option Chars :=
  match date? text with
  | none => time? text
  | some rest =>
      match rest with
      | mark :: more =>
          if mark = 'T' ∨ mark = 't' ∨ mark = ' ' then
            match time? more with
            | some after => zone? after
            | none => some rest
          else some rest
      | [] => some []

def numeric? (text : Chars) : Option (Value × Chars) :=
  match moment? text with
  | some rest => some (.moment, rest)
  | none =>
      match decimalFloat? text with
      | some (some value, rest) => some (value, rest)
      | some (none, _) => none
      | none =>
          match specialFloat? text with
          | some result => some result
          | none => integer? text

end NormalForm.Toml
