import Mathlib.Data.Nat.Init
import NormalForm.Proofs.Exact.Crossing
import NormalForm.Proofs.Solver.Course

/-!
Cadence of the reports. With an interval of `r` the observer is asked before the steps `r`, `2 r`,
`3 r` and so on, and told of the progress before each of them that goes ahead. An interval of zero
leaves the observer alone. In exact arithmetic the fraction told never falls.
-/

set_option autoImplicit false

namespace NormalForm

-- What can happen from the state in front of a step on, the steps being numbered from one.
inductive Paced {α : Type} (interval : Nat) : Nat → List (Moment α) → Prop where
  -- The step before has failed.
  | ceased (step : Nat) : Paced interval step []
  | ended (step : Nat) (state : Path α) : Paced interval step [.state state]
  | stopped (step : Nat) (state : Path α) (due : interval ∣ step) :
      Paced interval step [.state state, .polled true]
  | unattended (step : Nat) (state : Path α) (later : List (Moment α)) (undue : ¬ interval ∣ step)
      (goesOn : Paced interval (step + 1) later) :
      Paced interval step (.state state :: .attempted step :: later)
  | attended (step : Nat) (state : Path α) (progress : Progress α) (later : List (Moment α))
      (due : interval ∣ step) (goesOn : Paced interval (step + 1) later) :
      Paced interval step (.state state :: .polled false :: .reported progress :: .attempted step :: later)

theorem paced_alone {α : Type} (step : Nat) (moments : List (Moment α)) (paced : Paced 0 step moments)
    (numbered : 0 < step) :
    moments.filterMap Moment.poll? = [] ∧ moments.filterMap Moment.report? = [] := by
  induction paced with
  | ceased => exact ⟨rfl, rfl⟩
  | ended => exact ⟨rfl, rfl⟩
  | stopped step state due => exact absurd (Nat.eq_zero_of_zero_dvd due) (Nat.ne_of_gt numbered)
  | unattended step state later undue goesOn ih =>
      obtain ⟨polls, reports⟩ := ih (Nat.succ_pos step)
      exact ⟨polls, reports⟩
  | attended step state progress later due goesOn => exact absurd (Nat.eq_zero_of_zero_dvd due) (Nat.ne_of_gt numbered)

-- How often the observer was asked and told, when so many steps had been taken before these moments.
structure Tally {α : Type} (interval taken : Nat) (moments : List (Moment α)) (ending : Ending α) : Prop where
  answered : ∀ report, ending.result = .ok report → report.termination ≠ .cancelled →
    taken / interval + (moments.filterMap Moment.poll?).length = report.steps / interval ∧
      taken / interval + (moments.filterMap Moment.report?).length = report.steps / interval
  failed : ∀ failure, ending.result = .error failure → ∃ step, failure.At step ∧
    taken / interval + (moments.filterMap Moment.poll?).length = step / interval ∧
      taken / interval + (moments.filterMap Moment.report?).length = step / interval
  cancelled : ∀ report, ending.result = .ok report → report.termination = .cancelled →
    (taken / interval + (moments.filterMap Moment.poll?).length) * interval = report.steps + 1 ∧
      (moments.filterMap Moment.poll?).length = (moments.filterMap Moment.report?).length + 1 ∧
      report.equilibria = []

namespace Run

variable {α : Type} [Scalar α]

-- An interval of zero divides no number of a step.
omit [Scalar α] in
theorem is_due_iff (config : Config α) (run : Run α) :
    run.isDue config = true ↔ config.reportInterval ∣ run.steps + 1 := by
  rw [isDue, Bool.and_eq_true, decide_eq_true_eq, beq_iff_eq, ← Nat.dvd_iff_mod_eq_zero]
  refine ⟨And.right, fun divides => ⟨Nat.pos_of_dvd_of_pos divides (Nat.succ_pos run.steps), divides⟩⟩

theorem stepped_paced (config : Config α) (run : Run α) (later : List (Moment α))
    (goesOn : Paced config.reportInterval (run.steps + 2) later) :
    Paced config.reportInterval (run.steps + 1) (run.stepped config later) := by
  rw [stepped, attention]
  by_cases due : run.isDue config = true
  · rw [if_pos due]
    exact .attended _ _ _ _ ((is_due_iff config run).mp due) goesOn
  · rw [if_neg due]
    exact .unattended _ _ _ (mt (is_due_iff config run).mpr due) goesOn

-- The induction follows the course.
theorem course_paced (config : Config α) (left : Nat) (run : Run α) (moments : List (Moment α))
    (ending : Ending α) (course : Course config left run moments ending) :
    Paced config.reportInterval (run.steps + 1) moments := by
  induction course with
  | halt left run moments ending halts =>
      cases halts with
      | finished => exact .ended _ _
      | cancelled left _ above due => exact .stopped _ _ ((is_due_iff config run).mp due)
      | failed left _ _ above taken => exact stepped_paced config run [] (.ceased _)
  | step left run next moments ending above taken later ih =>
      obtain ⟨-, steps, -⟩ := step_goes_on config run next taken
      rw [steps] at ih
      exact stepped_paced config run moments ih

/-! Polls and reports are as many as the multiples of the interval that have been passed. -/

theorem attention_counts (config : Config α) (run : Run α) :
    run.steps / config.reportInterval + ((run.attention config).filterMap Moment.poll?).length =
        (run.steps + 1) / config.reportInterval ∧
      run.steps / config.reportInterval + ((run.attention config).filterMap Moment.report?).length =
        (run.steps + 1) / config.reportInterval := by
  rw [attention, Nat.succ_div]
  by_cases due : run.isDue config = true
  · rw [if_pos due, if_pos ((is_due_iff config run).mp due)]
    exact ⟨rfl, rfl⟩
  · rw [if_neg due, if_neg (mt (is_due_iff config run).mpr due)]
    exact ⟨rfl, rfl⟩

theorem stepped_counts (config : Config α) (run : Run α) (later : List (Moment α)) :
    run.steps / config.reportInterval + ((run.stepped config later).filterMap Moment.poll?).length =
        (run.steps + 1) / config.reportInterval + (later.filterMap Moment.poll?).length ∧
      run.steps / config.reportInterval + ((run.stepped config later).filterMap Moment.report?).length =
        (run.steps + 1) / config.reportInterval + (later.filterMap Moment.report?).length := by
  obtain ⟨polls, reports⟩ := attention_counts config run
  rw [stepped_polls, stepped_reports, List.length_append, List.length_append, ← Nat.add_assoc, ← Nat.add_assoc,
    polls, reports]
  exact ⟨rfl, rfl⟩

theorem finished_tally (config : Config α) (run : Run α) :
    Tally config.reportInterval run.steps [.state run.path] (run.finish config) := by
  refine ⟨?_, nofun, ?_⟩
  · rintro report ⟨⟩ -
    exact ⟨rfl, rfl⟩
  · rintro report ⟨⟩ stopped
    simp only [reportWith] at stopped
    split at stopped
    · cases stopped
    · cases stopped

omit [Scalar α] in
theorem cancelled_tally (config : Config α) (run : Run α) (due : run.isDue config) :
    Tally config.reportInterval run.steps [.state run.path, .polled true] run.cancel := by
  have divides := (is_due_iff config run).mp due
  refine ⟨?_, nofun, ?_⟩
  · rintro report ⟨⟩ running
    exact absurd rfl running
  · rintro report ⟨⟩ -
    refine ⟨?_, rfl, rfl⟩
    have next : (run.steps + 1) / config.reportInterval = run.steps / config.reportInterval + 1 := by
      rw [Nat.succ_div, if_pos divides]
    exact (congrArg (· * config.reportInterval) next.symm).trans (Nat.div_mul_cancel divides)

theorem failed_tally (config : Config α) (run : Run α) (ending : Ending α)
    (taken : run.step config = .ok (.error ending)) :
    Tally config.reportInterval run.steps (run.stepped config []) ending := by
  obtain ⟨failure, result, fails⟩ := step_ends config run ending taken
  refine ⟨?_, ?_, ?_⟩
  · intro report answered
    cases result.symm.trans answered
  · intro other failed
    cases result.symm.trans failed
    exact ⟨run.steps + 1, Path.fails_at config _ run.path failure fails, stepped_counts config run []⟩
  · intro report answered
    cases result.symm.trans answered

theorem stepped_tally (config : Config α) (run : Run α) (moments : List (Moment α)) (ending : Ending α)
    (later : Tally config.reportInterval (run.steps + 1) moments ending) :
    Tally config.reportInterval run.steps (run.stepped config moments) ending := by
  obtain ⟨polls, reports⟩ := stepped_counts config run moments
  refine ⟨?_, ?_, ?_⟩
  · rw [polls, reports]
    exact later.answered
  · rw [polls, reports]
    exact later.failed
  · intro report answered stopped
    obtain ⟨steps, one, none⟩ := later.cancelled report answered stopped
    rw [polls]
    exact ⟨steps, by omega, none⟩

theorem course_tally (config : Config α) (left : Nat) (run : Run α) (moments : List (Moment α))
    (ending : Ending α) (course : Course config left run moments ending) :
    Tally config.reportInterval run.steps moments ending := by
  induction course with
  | halt left run moments ending halts =>
      cases halts with
      | finished => exact finished_tally config run
      | cancelled left _ above due => exact cancelled_tally config run due
      | failed left _ _ above taken => exact failed_tally config run ending taken
  | step left run next moments ending above taken later ih =>
      obtain ⟨-, steps, -⟩ := step_goes_on config run next taken
      rw [steps] at ih
      exact stepped_tally config run moments ending ih

end Run

/-! The fractions told, in exact arithmetic. -/

structure Lowest (paths : List (Path ℝ)) (lowest : ℝ) : Prop where
  reached : ∃ path ∈ paths, path.lambda = lowest
  bound : ∀ path ∈ paths, lowest ≤ path.lambda

theorem lowest_append (paths : List (Path ℝ)) (path : Path ℝ) (lowest : ℝ) (before : Lowest paths lowest) :
    Lowest (paths ++ [path]) (min lowest path.lambda) := by
  refine ⟨?_, ?_⟩
  · rcases min_choice lowest path.lambda with kept | lower
    · obtain ⟨other, listed, same⟩ := before.reached
      exact ⟨other, List.mem_append_left _ listed, by rw [kept, same]⟩
    · exact ⟨path, List.mem_append_right _ (List.mem_singleton_self path), lower.symm⟩
  · intro other listed
    rcases List.mem_append.mp listed with earlier | last
    · exact (min_le_left _ _).trans (before.bound other earlier)
    · rw [List.mem_singleton.mp last]
      exact min_le_right _ _

theorem lowest_anti (paths more : List (Path ℝ)) (lowest lower : ℝ) (least : Lowest paths lowest)
    (further : Lowest more lower) (included : ∀ path ∈ paths, path ∈ more) : lower ≤ lowest := by
  obtain ⟨path, listed, same⟩ := least.reached
  exact same ▸ further.bound path (included path listed)

-- One minus the lowest lambda before the step that a report precedes, between zero and one.
def Graded (interval taken : Nat) (before : List (Path ℝ)) (moments : List (Moment ℝ)) : Prop :=
  ∀ (place : Nat) (progress : Progress ℝ), (moments.filterMap Moment.report?)[place]? = some progress →
    ∃ lowest, Lowest ((before ++ moments.filterMap Moment.state?).take ((taken / interval + place + 1) * interval))
      lowest ∧ progress.fraction = max 0 (min 1 (1 - lowest))

namespace Run

theorem stepped_graded (config : Config ℝ) (run : Run ℝ) (before : List (Path ℝ)) (moments : List (Moment ℝ))
    (size : before.length = run.steps) (least : Lowest (before ++ [run.path]) run.lowest)
    (later : Graded config.reportInterval (run.steps + 1) (before ++ [run.path]) moments) :
    Graded config.reportInterval run.steps before (run.stepped config moments) := by
  intro place progress told
  rw [stepped_reports, attention] at told
  rw [stepped_states, List.append_cons]
  have passed : (run.steps + 1) / config.reportInterval =
      run.steps / config.reportInterval + if config.reportInterval ∣ run.steps + 1 then 1 else 0 := Nat.succ_div
  by_cases due : run.isDue config = true
  · have divides := (is_due_iff config run).mp due
    rw [if_pos divides] at passed
    rw [if_pos due] at told
    cases place with
    | zero =>
        obtain rfl : run.progress = progress := Option.some.inj told
        have whole : (before ++ [run.path]).length = (run.steps / config.reportInterval + 0 + 1) *
            config.reportInterval := by
          rw [Nat.add_zero, ← passed, Nat.div_mul_cancel divides, List.length_append, size, List.length_singleton]
        refine ⟨run.lowest, ?_, ?_⟩
        · rwa [← whole, List.take_left]
        · simp only [progress, Exact.zero_eq, Exact.one_eq]
          exact Exact.clamp_eq 0 1 _ zero_le_one
    | succ place =>
        have further := later place progress told
        rwa [passed, Nat.add_right_comm _ 1 place] at further
  · rw [if_neg (mt (is_due_iff config run).mpr due), Nat.add_zero] at passed
    rw [if_neg due] at told
    have further := later place progress told
    rwa [passed] at further

-- The induction follows the course; `before` holds the states up to here.
theorem course_graded (config : Config ℝ) (left : Nat) (run : Run ℝ) (moments : List (Moment ℝ))
    (ending : Ending ℝ) (course : Course config left run moments ending) (before : List (Path ℝ))
    (size : before.length = run.steps) (least : Lowest (before ++ [run.path]) run.lowest) :
    Graded config.reportInterval run.steps before moments := by
  induction course generalizing before with
  | halt left run moments ending halts =>
      cases halts with
      | finished => exact nofun
      | cancelled => exact nofun
      | failed => exact stepped_graded config run before [] size least nofun
  | step left run next moments ending above taken later ih =>
      obtain ⟨-, steps, lowest⟩ := step_goes_on config run next taken
      have longer : (before ++ [run.path]).length = run.steps + 1 := by
        rw [List.length_append, size, List.length_singleton]
      have rest := ih (before ++ [run.path]) (longer.trans steps.symm) (by
        rw [lowest, Exact.min_eq]
        exact lowest_append _ next.path run.lowest least)
      rw [steps] at rest
      exact stepped_graded config run before moments size least rest

end Run

namespace Account

-- The observer's part in a run.
structure Attended {α : Type} (account : Account α) (interval : Nat) : Prop where
  paced : Paced interval 1 account.moments
  alone : interval = 0 → account.polls = [] ∧ account.reports = []
  answered : ∀ report, account.result = .ok report → report.termination ≠ .cancelled →
    account.polls.length = report.steps / interval ∧ account.reports.length = report.steps / interval
  failed : ∀ failure, account.result = .error failure → ∃ step, failure.At step ∧
    account.polls.length = step / interval ∧ account.reports.length = step / interval
  -- The last of the polls has stopped the run.
  cancelled : ∀ report, account.result = .ok report → report.termination = .cancelled →
    account.polls.length * interval = report.steps + 1 ∧
      account.polls.length = account.reports.length + 1 ∧ report.equilibria = []

-- What the observer is told: how far lambda has come down, which never goes back.
structure Progresses (account : Account ℝ) (interval : Nat) : Prop where
  fractions : ∀ (place : Nat) (progress : Progress ℝ), account.reports[place]? = some progress →
    ∃ lowest, Lowest (account.states.take ((place + 1) * interval)) lowest ∧
      progress.fraction = max 0 (min 1 (1 - lowest))
  rising : (account.reports.map Progress.fraction).Pairwise (· ≤ ·)

end Account

theorem Run.course_attended {α : Type} [Scalar α] (config : Config α) (path : Path α) (account : Account α)
    (course : Course config config.maxSteps (.ofPath path) account.moments account.ending) :
    account.Attended config.reportInterval := by
  have tally := course_tally config _ _ _ _ course
  have start : (ofPath path).steps = 0 := rfl
  rw [start] at tally
  have answered := tally.answered
  have failed := tally.failed
  have cancelled := tally.cancelled
  rw [Nat.zero_div, Nat.zero_add, Nat.zero_add] at answered failed
  rw [Nat.zero_div, Nat.zero_add] at cancelled
  have paced := course_paced config _ _ _ _ course
  refine ⟨paced, fun zero => ?_, answered, failed, cancelled⟩
  rw [zero] at paced
  exact paced_alone 1 account.moments paced Nat.one_pos

theorem Run.course_progresses (config : Config ℝ) (path : Path ℝ) (account : Account ℝ)
    (course : Course config config.maxSteps (.ofPath path) account.moments account.ending) :
    account.Progresses config.reportInterval := by
  have single : Lowest ([] ++ [(ofPath path).path]) (ofPath path).lowest := by
    refine ⟨⟨path, List.mem_singleton_self path, rfl⟩, ?_⟩
    intro other listed
    rw [List.mem_singleton.mp listed]
    exact le_refl _
  have fractions : ∀ (place : Nat) (progress : Progress ℝ), account.reports[place]? = some progress →
      ∃ lowest, Lowest (account.states.take ((place + 1) * config.reportInterval)) lowest ∧
        progress.fraction = max 0 (min 1 (1 - lowest)) := by
    intro place progress told
    have graded := course_graded config _ _ _ _ course [] rfl single place progress told
    have start : (ofPath path).steps = 0 := rfl
    rwa [start, Nat.zero_div, Nat.zero_add] at graded
  refine ⟨fractions, List.pairwise_map.mpr (List.pairwise_iff_getElem.mpr ?_)⟩
  intro i j inside insideToo earlier
  obtain ⟨lowest, least, fraction⟩ := fractions i _ (List.getElem?_eq_getElem inside)
  obtain ⟨lower, leastLater, fractionLater⟩ := fractions j _ (List.getElem?_eq_getElem insideToo)
  have included : ∀ state ∈ account.states.take ((i + 1) * config.reportInterval),
      state ∈ account.states.take ((j + 1) * config.reportInterval) := by
    intro state listed
    have shorter : (i + 1) * config.reportInterval ≤ (j + 1) * config.reportInterval :=
      Nat.mul_le_mul_right _ (Nat.succ_le_succ (Nat.le_of_lt earlier))
    exact (List.take_prefix_take_left shorter).subset listed
  have fallen := lowest_anti _ _ lowest lower least leastLater included
  rw [fraction, fractionLater]
  exact max_le_max_left 0 (min_le_min_left 1 (sub_le_sub_left fallen 1))

-- The counts hold over any arithmetic, the fractions over the real numbers.
theorem Game.observer_is_attended_at_intervals {m : Type → Type} [Monad m] [LawfulMonad m] (game : Game)
    (reachable : game.Reachable) :
    (∀ {α : Type} [Scalar α] (config : Config α) (sink : StatusSink m α) (path : Path α),
      Path.start (.ofGame game) config = .ok (.ok path) →
        Except.map Account.ending <$> game.recount config sink = game.solve config sink ∧
        Delivers (game.recount config sink) fun account => account.Attended config.reportInterval) ∧
    ∀ (config : Config ℝ) (sink : StatusSink m ℝ) (path : Path ℝ),
      Path.start (.ofGame game) config = .ok (.ok path) →
        Delivers (game.recount config sink) fun account => account.Progresses config.reportInterval := by
  refine ⟨?_, ?_⟩
  · intro α scalar config sink path begun
    refine ⟨game.recount_solve config sink, ?_⟩
    apply delivers_imp _ _ _ (game.recount_course reachable config sink path begun)
    intro account course
    exact Run.course_attended config path account course
  · intro config sink path begun
    apply delivers_imp _ _ _ (game.recount_course reachable config sink path begun)
    intro account course
    exact Run.course_progresses config path account course

theorem Game.observer_is_attended_at_intervals_crossing :
    let config : Config ℝ := { Crossing.stride with maxSteps := 4, reportInterval := 2 }
    ∃ game, (blank [3, 2]).performAll Crossing.history = .ok game ∧
      ∃ (path : Path ℝ) (account : Account ℝ), Path.start (.ofGame game) config = .ok (.ok path) ∧
        ((game.recount config (.patient 1)).run 0).1 = .ok account ∧
        account.Attended 2 ∧ account.Progresses 2 := by
  intro config
  obtain ⟨game, made, table⟩ := Crossing.made
  have begun := Crossing.starts game.payoffScale config rfl
  rw [← table] at begun
  obtain ⟨attended, progresses⟩ :=
    observer_is_attended_at_intervals (m := StateM Nat) game ⟨[3, 2], _, _, rfl, made⟩
  obtain ⟨-, attended⟩ := attended config (.patient 1) _ begun
  obtain ⟨account, run, counts⟩ := delivers_state _ _ attended 0
  obtain ⟨other, sameRun, fractions⟩ := delivers_state _ _ (progresses config (.patient 1) _ begun) 0
  cases run.symm.trans sameRun
  exact ⟨game, made, _, account, begun, run, counts, fractions⟩

end NormalForm
