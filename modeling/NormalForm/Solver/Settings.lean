import NormalForm.Solver.Config
import NormalForm.Toml.Reader

/-!
Settings of the path follower read from a settings file. A file names the settings it changes; keys
that are no settings mean nothing.
-/

set_option autoImplicit false

namespace NormalForm.Config

def countOf (default : Nat) : Option Toml.Node → Option Nat
  | none => some default
  | some (.leaf (.integer value)) => if 0 ≤ value then some value.toNat else none
  | some _ => none

def numberOf (default : Float) : Option Toml.Node → Option Float
  | none => some default
  | some (.leaf (.float value)) => some value
  | some (.leaf (.integer value)) => some (Binary64.nearest value)
  | some _ => none

def ofEntries (entries : Toml.Entries) : Option (Config Float) := do
  let default : Config Float := standard
  let find := Toml.find? entries
  some
    { maxSteps := ← countOf default.maxSteps (find "max_steps")
      lambdaFloor := ← numberOf default.lambdaFloor (find "lambda_floor")
      stepSize := ← numberOf default.stepSize (find "step_size")
      reportInterval := ← countOf default.reportInterval (find "report_interval")
      tieTolerance := ← numberOf default.tieTolerance (find "tie_tolerance")
      feasibilityTolerance := ← numberOf default.feasibilityTolerance (find "feasibility_tolerance") }

def ofText? (text : String) : Option (Config Float) := do
  let entries ← Toml.read? text
  ofEntries entries

end NormalForm.Config
