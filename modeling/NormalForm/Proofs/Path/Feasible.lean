import NormalForm.Proofs.Mixed.Sizes
import NormalForm.Proofs.Path.Length
import NormalForm.Proofs.Path.Start
import NormalForm.Proofs.Rescaling.Repair

/-!
What a step that goes ahead leaves behind: a path that has passed the test of feasibility, and, as long
as the step size is no giant, numbers everywhere. A step adds at most twice the step size to lambda and to
any probability, and what is small beside their common bound cannot carry them past it.
-/

set_option autoImplicit false

namespace NormalForm

namespace Path

open Binary64

section Steps

variable {α : Type} [Scalar α]

theorem repair_all_stays (path : Path α) (step : Nat) (players : List Nat) (result : Path α × List (Event α))
    (run : path.repairAll step players = .ok result) :
    result.1.profile = path.profile ∧ result.1.lambda = path.lambda :=
  repair_all_follows step (fun before after _ => after.profile = before.profile ∧ after.lambda = before.lambda)
    (fun _ => ⟨rfl, rfl⟩)
    (fun _ _ _ _ _ first second => ⟨second.1.trans first.1, second.2.trans first.2⟩)
    (fun path player result => repair_stays path player step result) path players result run

theorem move_moves (path moved : Path α) (direction : List α) (stepSize size : α)
    (run : path.move direction stepSize size = .ok moved) :
    (∃ rate ∈ direction, moved.lambda = path.lambda + rate * (stepSize / size)) ∧
      ∀ p ∈ moved.profile.probabilities,
        ∃ old ∈ path.profile.probabilities, ∃ rate ∈ direction, p = old + rate * (stepSize / size) := by
  obtain ⟨profile, added, run⟩ := bind_eq_ok.mp run
  obtain ⟨rate, read, run⟩ := bind_eq_ok.mp run
  cases run
  refine ⟨⟨rate, List.mem_of_getElem? ((entry_eq_ok _ _ _).mp read), rfl⟩, ?_⟩
  rw [Mixed.add] at added
  split at added
  · cases added
    intro p member
    rw [← List.map_uncurry_zip_eq_zipWith] at member
    obtain ⟨⟨old, step⟩, paired, rfl⟩ := List.mem_map.mp member
    obtain ⟨before, stepped⟩ := List.of_mem_zip paired
    obtain ⟨entry, listed, rfl⟩ := List.mem_map.mp stepped
    exact ⟨old, before, entry, List.mem_of_mem_take listed, rfl⟩
  · cases added

-- Where a step goes ahead its direction has a length and the moved path is feasible; repair moves nothing.
theorem proceed_goes_ahead (path : Path α) (direction : List α) (events : List (Event α)) (step : Nat)
    (config : Config α) (attempt : Attempt α) (run : path.proceed direction events step config = .ok attempt)
    (whole : attempt.failure = none) :
    hasLength (length direction) = true ∧ ∃ moved,
      path.move direction config.stepSize (length direction) = .ok moved ∧
      moved.infeasible? step config.feasibilityTolerance = none ∧
      attempt.path.profile = moved.profile ∧ attempt.path.lambda = moved.lambda := by
  rw [proceed] at run
  split at run
  · rename_i long
    obtain ⟨moved, moves, run⟩ := bind_eq_ok.mp run
    split at run
    · cases run
      cases whole
    · rename_i feasible
      obtain ⟨⟨last, repairs⟩, repaired, run⟩ := bind_eq_ok.mp run
      cases run
      exact ⟨long, moved, moves, feasible, repair_all_stays moved step _ _ repaired⟩
  · cases run
    cases whole

end Steps

-- What the test of feasibility lets through. Neither comparison stops what is not a number.
structure Feasible (tolerance : Float) (path : Path Float) : Prop where
  lambda : Arithmetic.lt (Arithmetic.one + tolerance) path.lambda = false
  probabilities : ∀ p ∈ path.profile.probabilities, Arithmetic.lt p (-tolerance) = false

theorem feasible_of_none (path : Path Float) (step : Nat) (tolerance : Float)
    (none : path.infeasible? step tolerance = none) : path.Feasible tolerance := by
  rw [infeasible?] at none
  split at none
  · cases none
  · rename_i fits
    rw [Bool.or_eq_true, not_or, Bool.not_eq_true, Bool.not_eq_true] at fits
    refine ⟨fits.1, fun p member => ?_⟩
    by_contra below
    rw [Bool.not_eq_false] at below
    rw [smallest_below _ p _ member below] at fits
    cases fits.2

-- A length is at least `2 ^ (-537)`, the root of the smallest number. Divided by that, a step size up to
-- this power of two does not overflow.
def safeStep : Int := 486

-- Displacements stay below half a unit in the last place of this bound.
structure Bounded (path : Path Float) : Prop where
  lambda : AtMost (safeStep + 55) path.lambda
  probabilities : ∀ p ∈ path.profile.probabilities, AtMost (safeStep + 55) p

theorem move_bounded (path moved : Path Float) (direction : List Float) (stepSize : Float)
    (small : AtMost safeStep stepSize) (long : hasLength (length direction) = true) (bounded : path.Bounded)
    (run : path.move direction stepSize (length direction) = .ok moved) : moved.Bounded := by
  have added : ∀ old, AtMost (safeStep + 55) old → ∀ rate ∈ direction,
      AtMost (safeStep + 55) (old + rate * (stepSize / length direction)) := by
    intro old before rate member
    have little := displacement_at_most direction long rate member safeStep (by decide) (by decide) stepSize small
    exact add_at_most (safeStep + 55) (by decide) (by decide) old _ before little
  obtain ⟨⟨rate, listed, lambda⟩, probabilities⟩ := move_moves path moved direction stepSize _ run
  refine ⟨lambda ▸ added _ bounded.lambda rate listed, fun p member => ?_⟩
  obtain ⟨old, before, entry, inside, same⟩ := probabilities p member
  exact same ▸ added old (bounded.probabilities old before) entry inside

theorem start_bounded (table : PayoffTable Float) (config : Config Float) (path : Path Float)
    (begins : Begins table path) (begun : start table config = .ok (.ok path)) : path.Bounded := by
  refine ⟨?_, fun p member => ?_⟩
  · obtain ⟨rankings, -, rfl⟩ := start_state table config path begun
    exact at_most_mono 0 _ (by decide) _ one_at_most
  · rw [begins.profile] at member
    exact at_most_mono _ _ (by decide) _ (Mixed.uniform_at_most table begins.strategies p member)

end Path

end NormalForm
