/-!
Values of settings files in the TOML format, and the tables they are collected in. Tables remember how
they came about, since that decides how they may still grow.
-/

set_option autoImplicit false

namespace NormalForm.Toml

inductive Value where
  | text (content : String)
  | integer (value : Int)
  | float (value : Float)
  | boolean (value : Bool)
  | moment
  | array (items : List Value)
  | table (entries : List (String × Value))

inductive Origin where
  -- By a header of its own.
  | header
  -- As a part of the name in another table's header.
  | implied
  -- As a part of a dotted key.
  | dotted
deriving DecidableEq, Repr

inductive Node where
  | leaf (value : Value)
  | branch (origin : Origin) (entries : List (String × Node))
  -- An array of tables, by the entries of each.
  | branches (tables : List (List (String × Node)))

abbrev Entries := List (String × Node)

def find? (entries : Entries) (key : String) : Option Node :=
  (entries.find? fun (name, _) => name == key).map Prod.snd

def put (key : String) (node : Node) : Entries → Entries
  | [] => [(key, node)]
  | (name, old) :: rest =>
      if name = key then (name, node) :: rest else (name, old) :: put key node rest

-- Applies a change to the table that a dotted key or a header leads to. Missing tables are made with
-- the given origin; dotted keys may not enter tables that have a header.
def descend (origin : Origin) (change : Origin → Entries → Option Entries) :
    List String → Origin → Entries → Option Entries
  | [], here, entries => change here entries
  | key :: path, _, entries =>
      match find? entries key with
      | none => do
          let inner ← descend origin change path origin []
          some (put key (.branch origin inner) entries)
      | some (.leaf _) => none
      | some (.branch kind inner) =>
          if origin = .dotted ∧ kind = .header then none
          else do
            let inner ← descend origin change path kind inner
            some (put key (.branch kind inner) entries)
      | some (.branches tables) => do
          let last ← tables.getLast?
          let inner ← descend origin change path .header last
          some (put key (.branches (tables.dropLast ++ [inner])) entries)

-- A new pair in the table at hand. A dotted key may only add to tables made by dotted keys.
def addPair (key : List String) (value : Value) (entries : Entries) : Option Entries :=
  match key.reverse with
  | [] => none
  | last :: front =>
      let add (here : Origin) (inner : Entries) : Option Entries :=
        if front ≠ [] ∧ here ≠ .dotted then none
        else if (find? inner last).isSome then none
        else some (inner ++ [(last, .leaf value)])
      descend .dotted add front.reverse .header entries

-- Opens the table of a header: a new one, or one that so far was only implied.
def openTable (last : String) (_ : Origin) (entries : Entries) : Option Entries :=
  match find? entries last with
  | none => some (put last (.branch .header []) entries)
  | some (.branch .implied inner) => some (put last (.branch .header inner) entries)
  | _ => none

def openElement (last : String) (_ : Origin) (entries : Entries) : Option Entries :=
  match find? entries last with
  | none => some (put last (.branches [[]]) entries)
  | some (.branches tables) => some (put last (.branches (tables ++ [[]])) entries)
  | _ => none

-- Applies a change to the table at the end of a path of headers.
def within (path : List String) (change : Entries → Option Entries) (root : Entries) :
    Option Entries :=
  descend .implied (fun _ entries => change entries) path .header root

def openAt (array : Bool) (path : List String) (root : Entries) : Option Entries :=
  match path.reverse with
  | [] => none
  | last :: front =>
      let change := if array then openElement last else openTable last
      descend .implied change front.reverse .header root

def inlineTable (pairs : List (List String × Value)) : Option Value :=
  let rec plain : Nat → Entries → List (String × Value)
    | 0, _ => []
    | depth + 1, entries => entries.map fun (key, node) => match node with
        | .leaf value => (key, value)
        | .branch _ inner => (key, .table (plain depth inner))
        | .branches _ => (key, .array [])
  let entries? := pairs.foldlM (fun entries (key, value) => addPair key value entries) []
  entries?.map fun entries => .table (plain 100 entries)

end NormalForm.Toml
