import Mathlib.Data.List.Basic
import NormalForm.Proofs.Solver.Account

/-!
The course of a run: the states follow each other by whole steps, all of them but the last above the
floor, and only where the run halts does something else happen than a state, the attention to the
observer if it is due, and a step that succeeds.
-/

set_option autoImplicit false

namespace NormalForm

variable {α : Type}

-- The failure of a step under way, as opposed to one at the start.
def SolveError.At (step : Nat) : SolveError α → Prop
  | .degenerate failed _ => failed = step
  | .infeasible failed _ _ => failed = step
  | _ => False

variable [Scalar α]

namespace Path

def LeadsTo (config : Config α) (step : Nat) (before after : Path α) : Prop :=
  ∃ attempt, before.advance step config = .ok attempt ∧ attempt.failure = none ∧ attempt.path = after

def FailsWith (config : Config α) (step : Nat) (path : Path α) (failure : SolveError α) : Prop :=
  ∃ attempt, path.advance step config = .ok attempt ∧ attempt.failure = some failure

theorem infeasible_at (path : Path α) (step : Nat) (tolerance : α) (failure : SolveError α)
    (found : path.infeasible? step tolerance = some failure) : failure.At step := by
  rw [infeasible?] at found
  split at found
  · cases found
    rfl
  · cases found

theorem fails_at (config : Config α) (step : Nat) (path : Path α) (failure : SolveError α)
    (fails : FailsWith config step path failure) : failure.At step := by
  obtain ⟨attempt, run, failed⟩ := fails
  obtain ⟨rows, -, run⟩ := bind_eq_ok.mp run
  obtain ⟨⟨oriented, direction, turned⟩, -, run⟩ := bind_eq_ok.mp run
  dsimp only at run
  split at run
  · obtain ⟨moved, -, run⟩ := bind_eq_ok.mp run
    split at run
    · rename_i other found
      cases run
      cases failed
      exact infeasible_at moved step config.feasibilityTolerance failure found
    · obtain ⟨⟨last, repairs⟩, -, run⟩ := bind_eq_ok.mp run
      cases run
      cases failed
  · cases run
    cases failed
    rfl

end Path

namespace Run

theorem step_ends (config : Config α) (run : Run α) (ending : Ending α)
    (taken : run.step config = .ok (.error ending)) :
    ∃ failure, ending.result = .error failure ∧ run.path.FailsWith config (run.steps + 1) failure := by
  obtain ⟨attempt, advanced, taken⟩ := bind_eq_ok.mp taken
  dsimp only at taken
  split at taken
  · rename_i failure failed
    cases taken
    exact ⟨failure, rfl, attempt, advanced, failed⟩
  · cases taken

theorem step_goes_on (config : Config α) (run next : Run α) (taken : run.step config = .ok (.ok next)) :
    run.path.LeadsTo config (run.steps + 1) next.path ∧ next.steps = run.steps + 1 ∧
      next.lowest = Arithmetic.min run.lowest next.path.lambda := by
  obtain ⟨attempt, advanced, taken⟩ := bind_eq_ok.mp taken
  dsimp only at taken
  split at taken
  · cases taken
  · rename_i whole
    cases taken
    exact ⟨⟨attempt, advanced, whole, rfl⟩, rfl, rfl⟩

/-! Attention to the observer holds no state and no attempt, and the observer lets the run go on. -/

@[simp]
theorem attention_states (config : Config α) (run : Run α) :
    (run.attention config).filterMap Moment.state? = [] := by
  rw [attention]
  split <;> rfl

@[simp]
theorem attention_attempts (config : Config α) (run : Run α) :
    (run.attention config).filterMap Moment.attempt? = [] := by
  rw [attention]
  split <;> rfl

theorem attention_polls (config : Config α) (run : Run α) :
    true ∉ (run.attention config).filterMap Moment.poll? := by
  rw [attention]
  split <;> simp [Moment.poll?]

/-! What a successful step adds in front of the moments after it. -/

@[simp]
theorem stepped_states (config : Config α) (run : Run α) (later : List (Moment α)) :
    (run.stepped config later).filterMap Moment.state? = run.path :: later.filterMap Moment.state? := by
  simp [stepped, Moment.state?, List.filterMap_cons]

@[simp]
theorem stepped_attempts (config : Config α) (run : Run α) (later : List (Moment α)) :
    (run.stepped config later).filterMap Moment.attempt? =
      (run.steps + 1) :: later.filterMap Moment.attempt? := by
  simp [stepped, Moment.attempt?, List.filterMap_cons]

theorem stepped_polls (config : Config α) (run : Run α) (later : List (Moment α)) :
    (run.stepped config later).filterMap Moment.poll? =
      (run.attention config).filterMap Moment.poll? ++ later.filterMap Moment.poll? :=
  List.filterMap_append

theorem stepped_reports (config : Config α) (run : Run α) (later : List (Moment α)) :
    (run.stepped config later).filterMap Moment.report? =
      (run.attention config).filterMap Moment.report? ++ later.filterMap Moment.report? :=
  List.filterMap_append

/-! The states of a course. -/

theorem halt_states (config : Config α) (left : Nat) (run : Run α) (moments : List (Moment α))
    (ending : Ending α) (halts : Halt config left run moments ending) :
    moments.filterMap Moment.state? = [run.path] := by
  cases halts with
  | finished => rfl
  | cancelled => rfl
  | failed => exact stepped_states config run []

theorem course_head (config : Config α) (left : Nat) (run : Run α) (moments : List (Moment α))
    (ending : Ending α) (course : Course config left run moments ending) :
    (moments.filterMap Moment.state?)[0]? = some run.path := by
  cases course with
  | halt _ _ _ _ halts => rw [halt_states config left run moments ending halts, List.getElem?_cons_zero]
  | step _ _ next later =>
      exact congrArg (fun states => states[0]?) (stepped_states config run later)

-- The induction follows the course; a place further on belongs to the rest of it.
theorem course_moves (config : Config α) (left : Nat) (run : Run α) (moments : List (Moment α))
    (ending : Ending α) (course : Course config left run moments ending) (place : Nat)
    (before after : Path α) (here : (moments.filterMap Moment.state?)[place]? = some before)
    (next : (moments.filterMap Moment.state?)[place + 1]? = some after) :
    before.LeadsTo config (run.steps + place + 1) after ∧
      Arithmetic.lt config.lambdaFloor before.lambda = true := by
  induction course generalizing place with
  | halt left run moments ending halts =>
      rw [halt_states config left run moments ending halts] at next
      cases next
  | step left run following moments ending above taken later ih =>
      obtain ⟨leads, steps, -⟩ := step_goes_on config run following taken
      rw [stepped_states] at here next
      cases place with
      | zero =>
          rw [List.getElem?_cons_succ, course_head config left following moments ending later] at next
          cases here
          cases next
          exact ⟨leads, above⟩
      | succ place =>
          have rest := ih place here next
          rwa [steps, Nat.add_right_comm run.steps 1 place] at rest

-- The states of a course that starts from a state of a run are states of the run.
theorem course_reached (table : PayoffTable α) (config : Config α) (left : Nat) (run : Run α)
    (moments : List (Moment α)) (ending : Ending α) (course : Course config left run moments ending)
    (reached : Reached table config run) :
    (∀ path ∈ moments.filterMap Moment.state?, ∃ other, Reached table config other ∧ other.path = path) ∧
      Closes table config ending := by
  induction course with
  | halt left run moments ending halts =>
      rw [halt_states config left run moments ending halts]
      refine ⟨?_, ?_⟩
      · intro path listed
        exact ⟨run, reached, (List.mem_singleton.mp listed).symm⟩
      · cases halts with
        | finished => exact .finished run reached
        | cancelled => exact .cancelled run reached
        | failed left _ _ above taken => exact .failed run ending reached above taken
  | step left run next moments ending above taken later ih =>
      obtain ⟨states, closes⟩ := ih (.step run next reached above taken)
      refine ⟨?_, closes⟩
      rw [stepped_states]
      intro path listed
      rcases List.mem_cons.mp listed with rfl | further
      · exact ⟨run, reached, rfl⟩
      · exact states path further

-- What a course amounts to: uneventful steps, each attempted in turn, and the place where it halts.
structure Halts (config : Config α) (left : Nat) (run : Run α) (moments : List (Moment α))
    (ending : Ending α) (last : Run α) (before tail : List (Moment α)) : Prop where
  parts : moments = before ++ tail
  halt : ∃ unused, last.steps + unused = run.steps + left ∧ Halt config unused last tail ending
  states : run.steps + (before.filterMap Moment.state?).length = last.steps
  attempts : before.filterMap Moment.attempt? = List.range' (run.steps + 1) (last.steps - run.steps)
  polls : true ∉ before.filterMap Moment.poll?

theorem course_halts (config : Config α) (left : Nat) (run : Run α) (moments : List (Moment α))
    (ending : Ending α) (course : Course config left run moments ending) :
    ∃ last before tail, Halts config left run moments ending last before tail := by
  induction course with
  | halt left run moments ending halts =>
      exact ⟨run, [], moments, rfl, ⟨left, rfl, halts⟩, rfl, by simp, List.not_mem_nil⟩
  | step left run following moments ending above taken later ih =>
      obtain ⟨last, before, tail, parts, ⟨unused, budget, halt⟩, states, attempts, polls⟩ := ih
      obtain ⟨-, steps, -⟩ := step_goes_on config run following taken
      refine ⟨last, run.stepped config before, tail, by simp [parts, stepped], ⟨unused, by omega, halt⟩, ?_, ?_, ?_⟩
      · rw [stepped_states, List.length_cons]
        omega
      · have count : last.steps - run.steps = (last.steps - following.steps) + 1 := by omega
        rw [count, List.range'_succ, stepped_attempts, attempts, steps]
      · rw [stepped_polls, List.mem_append, not_or]
        exact ⟨attention_polls config run, polls⟩

end Run

end NormalForm
