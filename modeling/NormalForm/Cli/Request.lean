import NormalForm.Binary64.Decimal
import NormalForm.Word

/-!
Command-line arguments: what they ask for, or that they ask for nothing the program can do.
-/

set_option autoImplicit false

namespace NormalForm.Cli

inductive Command where
  | solve (file : String) (settings : Option String) (deadline : Option Float)
  | random (dims : List Nat) (seed places : Nat) (out : Option String)
  | sweep (dims : List Nat) (count seed : Nat) (settings : Option String)

inductive Request where
  | run (verbose : Bool) (command : Command)
  | help
  | version

structure OptionShape where
  name : String
  many : Bool
  admits : String → Bool

structure CommandShape where
  options : List OptionShape
  operands : Nat

-- What the arguments of a command gave, the latest values last.
structure Given where
  verbose : Bool
  values : List (String × List String)
  operands : List String

inductive Parsed where
  | given (given : Given)
  | help
  | wrong

-- An unsigned number: digits after an optional plus sign.
def natural? (text : String) : Option Nat :=
  let digits := match text.toList with
    | '+' :: rest => rest
    | chars => chars
  if digits.isEmpty || !digits.all Decimal.isDigit then none else some (Decimal.valueOf digits)

-- A full word is read without a minus sign.
def word? (text : String) : Option Nat := (natural? text).filter Word.fits

-- Half a word is read as a signed number and then held against its range, so that zero may have a
-- minus sign.
def halfWord? (text : String) : Option Nat :=
  match text.toList with
  | '-' :: digits =>
      if !digits.isEmpty && digits.all Decimal.isDigit && Decimal.valueOf digits = 0 then some 0
      else none
  | _ => (natural? text).filter fun n => n < Nat.pow 2 32

def isWord (text : String) : Bool := (word? text).isSome
def isHalfWord (text : String) : Bool := (halfWord? text).isSome
def isNumber (text : String) : Bool := (Binary64.ofText? text.toList).isSome
def isPath (text : String) : Bool := text != ""

namespace Given

def empty : Given := ⟨false, [], []⟩

def valuesOf (given : Given) (name : String) : List String :=
  given.values.flatMap fun (other, values) => if other = name then values else []

def valueOf? (given : Given) (name : String) : Option String := (given.valuesOf name).getLast?

-- Adds the values of one use of an option; an option for one value may be used once.
def add? (given : Given) (option : OptionShape) (values : List String) : Option Given :=
  let used := given.values.any fun (other, _) => other = option.name
  if values.isEmpty || !values.all option.admits || (used && !option.many) then none
  else some { given with values := given.values ++ [(option.name, values)] }

def raise? (given : Given) : Option Given :=
  if given.verbose then none else some { given with verbose := true }

end Given

def startsOption (arg : String) : Bool :=
  match arg.toList with
  | '-' :: _ :: _ => true
  | _ => false

def flags : List Char → Given → Parsed
  | [], given => .given given
  | 'v' :: rest, given =>
      match given.raise? with
      | some given => flags rest given
      | none => .wrong
  | 'h' :: _, _ => .help
  | _, _ => .wrong

def parseArgs (shape : CommandShape) (given : Given) : Nat → List String → Parsed
  | 0, _ => .wrong
  | _ + 1, [] => .given given
  | budget + 1, arg :: rest =>
      let operand (given : Given) : Parsed :=
        if given.operands.length < shape.operands && isPath arg then
          parseArgs shape { given with operands := given.operands ++ [arg] } budget rest
        else .wrong
      match arg.toList with
      | ['-', '-'] =>
          if given.operands.length + rest.length ≤ shape.operands && rest.all isPath then
            .given { given with operands := given.operands ++ rest }
          else .wrong
      | '-' :: '-' :: name =>
          let (name, attached) := match name.span (· != '=') with
            | (name, '=' :: value) => (String.ofList name, some (String.ofList value))
            | (name, _) => (String.ofList name, none)
          match name, attached with
          | "help", none => .help
          | "verbose", none =>
              match given.raise? with
              | some given => parseArgs shape given budget rest
              | none => .wrong
          | _, _ =>
              match shape.options.find? (fun option => option.name == name) with
              | none => .wrong
              | some option =>
                  let (values, rest) := match attached with
                    | some value => ([value], rest)
                    | none =>
                        let values := rest.takeWhile fun value => !startsOption value
                        let values := if option.many then values else values.take 1
                        (values, rest.drop values.length)
                  match given.add? option values with
                  | some given => parseArgs shape given budget rest
                  | none => .wrong
      | '-' :: letter :: letters =>
          match flags (letter :: letters) given with
          | .given given => parseArgs shape given budget rest
          | other => other
      | _ => operand given

def parseAll (shape : CommandShape) (verbose : Bool) (args : List String)
    (command : Given → Option Command) : Option Request :=
  match parseArgs shape Given.empty (args.length + 1) args with
  | .help => some .help
  | .wrong => none
  | .given given => (command given).map fun command => .run (verbose || given.verbose) command

def solveShape : CommandShape :=
  { options := [⟨"config", false, isPath⟩, ⟨"deadline", false, isNumber⟩], operands := 1 }

def randomShape : CommandShape :=
  { options :=
      [⟨"dims", true, isWord⟩, ⟨"seed", false, isWord⟩, ⟨"decimals", false, isHalfWord⟩,
        ⟨"out", false, isPath⟩]
    operands := 0 }

def sweepShape : CommandShape :=
  { options :=
      [⟨"dims", true, isWord⟩, ⟨"count", false, isWord⟩, ⟨"seed", false, isWord⟩,
        ⟨"config", false, isPath⟩]
    operands := 0 }

def Given.dims? (given : Given) : Option (List Nat) :=
  let dims := given.valuesOf "dims"
  if dims.isEmpty then none else dims.mapM word?

def Given.number (given : Given) (name : String) (read : String → Option Nat) (default : Nat) : Nat :=
  ((given.valueOf? name).bind read).getD default

def solveCommand (given : Given) : Option Command :=
  given.operands.head?.map fun file =>
    let deadline := (given.valueOf? "deadline").bind fun text => Binary64.ofText? text.toList
    .solve file (given.valueOf? "config") deadline

def randomCommand (given : Given) : Option Command :=
  given.dims?.map fun dims =>
    .random dims (given.number "seed" word? 0) (given.number "decimals" halfWord? 4)
      (given.valueOf? "out")

def sweepCommand (given : Given) : Option Command :=
  given.dims?.map fun dims =>
    .sweep dims (given.number "count" word? 100) (given.number "seed" word? 0)
      (given.valueOf? "config")

def helpTopics : List String := ["solve", "random", "sweep", "help"]

-- The request of a command line; nothing if it breaks the usage.
def Request.ofArgs? (verbose : Bool) : List String → Option Request
  | [] => none
  | arg :: rest =>
      match arg with
      | "solve" => parseAll solveShape verbose rest solveCommand
      | "random" => parseAll randomShape verbose rest randomCommand
      | "sweep" => parseAll sweepShape verbose rest sweepCommand
      | "help" =>
          match rest with
          | [] => some .help
          | [topic] => if topic ∈ helpTopics then some .help else none
          | _ => none
      | "--help" => some .help
      | "--version" => some .version
      | "--verbose" => if verbose then none else ofArgs? true rest
      | _ =>
          match arg.toList with
          | '-' :: letter :: letters =>
              if letter = 'V' then some .version
              else
                match flags (letter :: letters) ⟨verbose, [], []⟩ with
                | .given given => ofArgs? given.verbose rest
                | .help => some .help
                | .wrong => none
          | _ => none

end NormalForm.Cli
