import NormalForm.Toml.Lexeme

/-!
Reading settings files: values, pairs of a key and a value, and the headers of tables.
-/

set_option autoImplicit false

namespace NormalForm.Toml

-- Blanks, line ends and comments, as they may stand between the items of an array.
def skipLines : Nat → Chars → Chars
  | 0, text => text
  | budget + 1, text =>
      let rest := skipComment (skipSpace text)
      match newline? rest with
      | some rest => skipLines budget rest
      | none => rest

def skipAll (text : Chars) : Chars := skipLines (text.length + 1) text

/-! The budget of the readers below bounds the number of nested calls; twice the length of the text is
enough, since every second call takes a character. -/

mutual

def value? : Nat → Nat → Chars → Option (Value × Chars)
  | 0, _, _ => none
  | budget + 1, depth, text =>
      match text with
      | '[' :: rest =>
          if depth + 1 < maxDepth then do
            let (items, after) ← items? budget (depth + 1) (skipAll rest)
            some (.array items, after)
          else none
      | '\x7b' :: rest =>
          if depth + 1 < maxDepth then
            match skipSpace rest with
            | '\x7d' :: after => some (.table [], after)
            | rest => do
                let (pairs, after) ← pairs? budget (depth + 1) rest
                let table ← inlineTable pairs
                some (table, after)
          else none
      | 't' :: 'r' :: 'u' :: 'e' :: rest => some (.boolean true, rest)
      | 'f' :: 'a' :: 'l' :: 's' :: 'e' :: rest => some (.boolean false, rest)
      | c :: _ =>
          if c = '"' ∨ c = '\'' then do
            let (content, rest) ← string? text
            some (.text (String.ofList content), rest)
          else if c = 'i' ∨ c = 'n' then specialFloat? text
          else numeric? text
      | [] => none

-- The items of an array up to its end; a comma may follow the last.
def items? : Nat → Nat → Chars → Option (List Value × Chars)
  | 0, _, _ => none
  | budget + 1, depth, text =>
      match text with
      | ']' :: rest => some ([], rest)
      | _ => do
          let (value, rest) ← value? budget depth text
          match skipAll rest with
          | ',' :: more => do
              let (values, after) ← items? budget depth (skipAll more)
              some (value :: values, after)
          | ']' :: after => some ([value], after)
          | _ => none

-- The pairs of an inline table up to its end.
def pairs? : Nat → Nat → Chars → Option (List (List String × Value) × Chars)
  | 0, _, _ => none
  | budget + 1, depth, text => do
      let (key, rest) ← key? text
      let rest ← expectChar? '=' rest
      let (value, rest) ← value? budget depth (skipSpace rest)
      match skipSpace rest with
      | ',' :: more => do
          let (pairs, after) ← pairs? budget depth more
          some ((key, value) :: pairs, after)
      | '\x7d' :: after => some ([(key, value)], after)
      | _ => none

end

structure Document where
  root : Entries
  path : List String

namespace Document

def pair? (document : Document) (text : Chars) : Option (Document × Chars) := do
  let (key, rest) ← key? text
  let rest ← expectChar? '=' rest
  let rest := skipSpace rest
  let (value, rest) ← value? (2 * rest.length + 2) 0 rest
  let rest ← endOfLine? rest
  let root ← within document.path (addPair key value) document.root
  some ({ document with root }, rest)

-- A header, after its opening brackets; `array` says whether there were two.
def header? (array : Bool) (document : Document) (text : Chars) : Option (Document × Chars) := do
  let (path, rest) ← key? text
  let rest ← expectChar? ']' rest
  let rest ← if array then expectChar? ']' rest else some rest
  let rest ← endOfLine? rest
  let root ← openAt array path document.root
  some (⟨root, path⟩, rest)

def lines? : Nat → Document → Chars → Option Document
  | 0, _, _ => none
  | budget + 1, document, text =>
      match skipSpace text with
      | [] => some document
      | '#' :: rest => do
          let rest ← endOfLine? ('#' :: rest)
          lines? budget document rest
      | '[' :: '[' :: rest => do
          let (document, rest) ← header? true document rest
          lines? budget document rest
      | '[' :: rest => do
          let (document, rest) ← header? false document rest
          lines? budget document rest
      | rest =>
          match newline? rest with
          | some rest => lines? budget document rest
          | none => do
              let (document, rest) ← pair? document rest
              lines? budget document rest

end Document

def read? (text : String) : Option Entries :=
  let chars := match text.toList with
    | '\ufeff' :: rest => rest
    | chars => chars
  (Document.lines? (chars.length + 1) ⟨[], []⟩ chars).map Document.root

end NormalForm.Toml
