/-!
Quoted text: a backslash stands before every quote and backslash of the content, and any character
may follow a backslash.
-/

set_option autoImplicit false

namespace NormalForm.Text

def escapeChars : List Char → List Char
  | [] => []
  | c :: rest =>
      if c = '"' ∨ c = '\\' then '\\' :: c :: escapeChars rest else c :: escapeChars rest

def escape (text : String) : String := String.ofList (escapeChars text.toList)

def quote (text : String) : String := "\"" ++ escape text ++ "\""

-- Content up to the closing quote, and what follows it; `none` if the text ends first.
def unquote : List Char → Option (List Char × List Char)
  | [] => none
  | '"' :: rest => some ([], rest)
  | ['\\'] => none
  | '\\' :: c :: rest => (unquote rest).map fun (content, after) => (c :: content, after)
  | c :: rest => (unquote rest).map fun (content, after) => (c :: content, after)

theorem unquote_escape (content rest : List Char) :
    unquote (escapeChars content ++ '"' :: rest) = some (content, rest) := by
  induction content with
  | nil => simp [escapeChars, unquote]
  | cons c tail hyp =>
      by_cases special : c = '"' ∨ c = '\\'
      · simp [escapeChars, special, unquote, hyp]
      · have notQuote : c ≠ '"' := fun same => special (Or.inl same)
        have notSlash : c ≠ '\\' := fun same => special (Or.inr same)
        simp [escapeChars, unquote, notQuote, notSlash, hyp]

end NormalForm.Text
