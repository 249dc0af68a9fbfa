/-!
Columns: text filled with blanks to a width, counted in characters.
-/

set_option autoImplicit false

namespace NormalForm.Text

def flushLeft (width : Nat) (text : String) : String :=
  text ++ String.ofList (List.replicate (width - text.length) ' ')

def flushRight (width : Nat) (text : String) : String :=
  String.ofList (List.replicate (width - text.length) ' ') ++ text

def bracketed (entries : List Nat) : String :=
  "[" ++ String.intercalate ", " (entries.map toString) ++ "]"

end NormalForm.Text
