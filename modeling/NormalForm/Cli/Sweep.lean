import NormalForm.Game.Random
import NormalForm.Record
import NormalForm.Word

/-!
Sweeps: the solver run on the random games of consecutive seeds, and a count of how the runs ended.
-/

set_option autoImplicit false

namespace NormalForm.Cli

abbrev SweepResult := Except (SolveError Float) (Termination × Float)

-- A count of runs by their ends, and the largest regret of those that converged.
structure Tally where
  converged : Nat
  exhausted : Nat
  failed : Nat
  worst : Float

namespace Tally

def empty : Tally := ⟨0, 0, 0, 0.0⟩

def add (tally : Tally) : SweepResult → Tally
  | .ok (.converged, regret) =>
      { tally with converged := tally.converged + 1, worst := Arithmetic.max tally.worst regret }
  | .ok _ => { tally with exhausted := tally.exhausted + 1 }
  | .error _ => { tally with failed := tally.failed + 1 }

def summary (tally : Tally) : String :=
  s!"converged {tally.converged}, step budget {tally.exhausted}, failed {tally.failed}" ++
    ", worst regret " ++ sixPlaces tally.worst

end Tally

def sweepPlaces : Nat := 4

def sweepRun (config : Config Float) (dims : Dimensions) (seed : Nat) :
    Except Fault (SweepResult × List (Event Float)) := do
  if !Word.fits seed then .error .overflow
  else
    let game ← Game.random 1 dims seed.toUInt64 sweepPlaces
    let ending ← Id.run (game.solve config .silent)
    match ending.result with
    | .error error => .ok (.error error, ending.events)
    | .ok report =>
        match report.equilibria with
        | [] => .ok (.ok (report.termination, Binary64.infinity - Binary64.infinity), ending.events)
        | profile :: _ => do
            let regret ← profile.maxRegret
            .ok (.ok (report.termination, regret), ending.events)

-- Bytes that the table of results keeps of a run: its seed, and its end or the text of its failure.
def resultBytes : Nat := 32

-- The runs of consecutive seeds; the table of their results must have a size that can be addressed.
def sweepRuns (config : Config Float) (dims : Dimensions) (count seed : Nat) :
    Except Fault (List (SweepResult × List (Event Float))) :=
  if Word.addressable count resultBytes then
    (List.range count).mapM fun index => sweepRun config dims (seed + index)
  else .error .unaddressable

def sweepRecord? (seed : Nat) : SweepResult → Option Record
  | .ok (.converged, _) => none
  | .ok (termination, _) => some ⟨.debug, s!"seed {seed}: " ++ termination.name⟩
  | .error error => some ⟨.warn, s!"seed {seed}: " ++ error.message⟩

end NormalForm.Cli
