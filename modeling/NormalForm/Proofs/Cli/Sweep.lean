import NormalForm.Cli.Memory
import NormalForm.Cli.Program
import NormalForm.Proofs.Binary64.Largest
import NormalForm.Proofs.File.Drawn
import NormalForm.Proofs.Solver.Safety

/-!
Sweeps count every run once. Where the seeds are words and the table of the results can be addressed, every run
has an answer, and after its settings a sweep gets to its summary; anywhere else it ends with an overflow.
-/

set_option autoImplicit false

namespace NormalForm.Cli

open Binary64

/-! The answers of the solver. -/

abbrev Answer := Except Fault (Except (SolveError Float) (Report Float))

-- What the solver answers for the random game of a seed.
def answer (config : Config Float) (dims : Dimensions) (seed : Nat) : Answer := do
  let game ← Game.random 1 dims seed.toUInt64 4
  let ending ← Id.run (game.solve config .silent)
  .ok ending.result

namespace Answer

def hasConverged : Answer → Bool
  | .ok (.ok report) => report.termination == .converged
  | _ => false

def hasStopped : Answer → Bool
  | .ok (.ok report) => report.termination != .converged
  | _ => false

def hasFailed : Answer → Bool
  | .ok (.error _) => true
  | _ => false

-- The largest regret at the profile with which the run converged.
def HasRegret (answer : Answer) (regret : Float) : Prop :=
  ∃ report profile, answer = .ok (.ok report) ∧ report.termination = .converged ∧
    report.equilibria = [profile] ∧ profile.maxRegret = .ok regret

end Answer

-- The counts of a sweep. The worst regret is zero if no run converged.
structure Tally.Counts (tally : Tally) (config : Config Float) (dims : Dimensions) (count seed : Nat) : Prop where
  total : tally.converged + tally.exhausted + tally.failed = count
  converged : tally.converged = (List.range count).countP fun index => (answer config dims (seed + index)).hasConverged
  exhausted : tally.exhausted = (List.range count).countP fun index => (answer config dims (seed + index)).hasStopped
  failed : tally.failed = (List.range count).countP fun index => (answer config dims (seed + index)).hasFailed
  regrets : ∀ index < count, (answer config dims (seed + index)).hasConverged →
    ∃ regret, (answer config dims (seed + index)).HasRegret regret
  none : tally.converged = 0 → tally.worst = 0.0
  attained : 0 < tally.converged → ∃ index < count, (answer config dims (seed + index)).HasRegret tally.worst
  largest : ∀ index < count, ∀ regret, (answer config dims (seed + index)).HasRegret regret →
    Arithmetic.le regret tally.worst = true

-- What a sweep keeps of an answer.
inductive Keeps : Answer → SweepResult → Prop where
  | failed (failure : SolveError Float) : Keeps (.ok (.error failure)) (.error failure)
  | stopped (report : Report Float) (regret : Float) (stopped : report.termination ≠ .converged) :
      Keeps (.ok (.ok report)) (.ok (report.termination, regret))
  | converged (report : Report Float) (profile : Mixed Float) (regret : Float)
      (converged : report.termination = .converged) (single : report.equilibria = [profile])
      (regretted : profile.maxRegret = .ok regret) (gain : Gain regret) :
      Keeps (.ok (.ok report)) (.ok (.converged, regret))

-- An ending of a run and what a sweep keeps of it.
theorem ending_keeps (table : PayoffTable Float) (complete : table.Complete)
    (words : ∀ d ∈ table.dims, d < Word.size) (config : Config Float) (ending : Ending Float)
    (closes : Run.Closes table config ending) :
    (∃ failure, ending.result = .error failure) ∨
      ∃ report, ending.result = .ok report ∧ (report.equilibria = [] ∧ report.termination ≠ .converged ∨
        ∃ profile regret, report.equilibria = [profile] ∧ profile.maxRegret = .ok regret ∧ Gain regret) := by
  have failedStep (run : Run Float) (failed : run.step config = .ok (.error ending)) :
      ∃ failure, ending.result = .error failure := by
    obtain ⟨attempt, -, finish⟩ := bind_eq_ok.mp failed
    cases failure : attempt.failure with
    | none =>
        rw [failure] at finish
        cases finish
    | some failure' =>
        rw [failure] at finish
        cases finish
        exact ⟨failure', rfl⟩
  cases closes with
  | unstarted failure begun => exact .inl ⟨failure, rfl⟩
  | failed run _ reached above taken => exact .inl (failedStep run taken)
  | cancelled run reached =>
      have different : Termination.cancelled ≠ .converged := by decide
      exact .inr ⟨_, rfl, .inl ⟨rfl, different⟩⟩
  | finished run reached =>
      obtain ⟨valid, -⟩ := Run.reached_valid table complete words config run reached
      obtain ⟨regrets, regretted⟩ := run.path.profile.max_regret_succeeds valid.profile
      exact .inr ⟨_, rfl, .inr ⟨run.path.profile, _, rfl, regretted, largest_gain regrets⟩⟩

theorem sweep_run_beyond (config : Config Float) (dims : Dimensions) (seed : Nat) (beyond : ¬ Word.fits seed) :
    sweepRun config dims seed = .error .overflow := by
  rw [sweepRun, Bool.eq_false_iff.mpr beyond]
  rfl

-- A run takes the random game of its seed, whose payoffs can all be read, and so has an answer.
theorem sweep_run_keeps (config : Config Float) (dims : Dimensions) (seed : Nat) (counted : dims.count?.isSome)
    (word : Word.fits seed) :
    ∃ result events, sweepRun config dims seed = .ok (result, events) ∧ Keeps (answer config dims seed) result := by
  obtain ⟨game, made, valid⟩ := Game.random_well_formed 1 dims seed.toUInt64 4 (by decide) counted
  have complete : (PayoffTable.ofGame game : PayoffTable Float).Complete := PayoffTable.of_game_complete game valid
  have words := Dimensions.words_of_count game.dimensions valid.addressable
  obtain ⟨endings, solved⟩ := PayoffTable.solve_succeeds (m := Id) _ complete words config .silent
  obtain ⟨ending, closes⟩ := endings
  have run : Id.run (game.solve config .silent) = .ok ending := solved
  have answered : answer config dims seed = .ok ending.result := by
    rw [answer, made, ok_bind, run, ok_bind]
  rw [sweepRun, word, Bool.not_true, if_neg Bool.false_ne_true, sweepPlaces, made, ok_bind, run, ok_bind, answered]
  rcases ending_keeps _ complete words config ending closes with ⟨failure, failed⟩ | ⟨report, answers, kept⟩
  · rw [failed]
    exact ⟨_, _, rfl, .failed failure⟩
  · rw [answers]
    rcases kept with ⟨none, different⟩ | ⟨profile, regret, single, regretted, gain⟩
    · dsimp only
      rw [none]
      exact ⟨_, _, rfl, .stopped report _ different⟩
    · dsimp only
      rw [single]
      dsimp only
      rw [regretted, ok_bind]
      refine ⟨_, _, rfl, ?_⟩
      by_cases converged : report.termination = .converged
      · rw [converged]
        exact .converged report profile regret converged single regretted gain
      · exact .stopped report regret converged

/-! The runs of consecutive seeds. -/

-- What a sweep can do: its last seed is a word, and the table of its results can be addressed.
structure Admissible (count seed : Nat) : Prop where
  seeds : seed + count ≤ 2 ^ 64
  results : count * 32 < 2 ^ 63

theorem seed_fits_iff (seed : Nat) : Word.fits seed ↔ seed < 2 ^ 64 := by
  rw [Word.fits, decide_eq_true_iff, Word.size, Nat.pow_eq]

theorem results_addressable_iff (count : Nat) : Word.addressable count resultBytes ↔ count * 32 < 2 ^ 63 := by
  rw [Word.addressable, decide_eq_true_iff, Nat.pow_eq, resultBytes]

theorem sweep_runs_keep (config : Config Float) (dims : Dimensions) (count seed : Nat) (counted : dims.count?.isSome)
    (admissible : Admissible count seed) :
    ∃ runs, sweepRuns config dims count seed = .ok runs ∧ List.Forall₂ (fun index result =>
      Keeps (answer config dims (seed + index)) result) (List.range count) (runs.map Prod.fst) := by
  rw [sweepRuns, if_pos ((results_addressable_iff count).mpr admissible.results)]
  obtain ⟨runs, run, all⟩ := map_m_succeeds (List.range count) (fun index => sweepRun config dims (seed + index))
    (fun index result => Keeps (answer config dims (seed + index)) result.1) fun index inside => by
      have seeds := admissible.seeds
      have below := List.mem_range.mp inside
      obtain ⟨result, events, here, keeps⟩ := sweep_run_keeps config dims (seed + index) counted
        ((seed_fits_iff _).mpr (by omega))
      exact ⟨(result, events), here, keeps⟩
  exact ⟨runs, run, List.forall₂_map_right_iff.mpr all⟩

-- What ends a sweep that is not admissible: without room for the results it does not start.
def stop (count : Nat) : Fault := if count * 32 < 2 ^ 63 then .overflow else .unaddressable

theorem sweep_runs_stop (config : Config Float) (dims : Dimensions) (count seed : Nat)
    (counted : dims.count?.isSome) (word : Word.fits seed) (beyond : ¬ Admissible count seed) :
    sweepRuns config dims count seed = .error (stop count) := by
  have first := (seed_fits_iff seed).mp word
  rw [sweepRuns, stop]
  by_cases results : count * 32 < 2 ^ 63
  · rw [if_pos results, if_pos ((results_addressable_iff count).mpr results)]
    have last : 2 ^ 64 < seed + count := Nat.lt_of_not_le fun seeds => beyond ⟨seeds, results⟩
    refine map_m_stops (List.range count) _ Fault.overflow (fun index inside => ?_) ⟨2 ^ 64 - seed, ?_, ?_⟩
    · by_cases fits : Word.fits (seed + index) = true
      · obtain ⟨result, events, here, -⟩ := sweep_run_keeps config dims (seed + index) counted fits
        exact .inl ⟨_, here⟩
      · exact .inr (sweep_run_beyond config dims (seed + index) fits)
    · rw [List.mem_range]
      omega
    · refine sweep_run_beyond config dims _ fun fits => ?_
      rw [seed_fits_iff] at fits
      omega
  · rw [if_neg results, if_neg fun table => results ((results_addressable_iff count).mp table)]

/-! Counting. -/

def convergedRegret? : SweepResult → Option Float
  | .ok (.converged, regret) => some regret
  | _ => none

theorem stopped_regret (termination : Termination) (regret : Float) (stopped : termination ≠ .converged) :
    convergedRegret? (.ok (termination, regret)) = none := by
  cases termination with
  | converged => exact absurd rfl stopped
  | stepBudget => rfl
  | cancelled => rfl

theorem add_stopped (tally : Tally) (termination : Termination) (regret : Float)
    (stopped : termination ≠ .converged) :
    tally.add (.ok (termination, regret)) = { tally with exhausted := tally.exhausted + 1 } := by
  cases termination with
  | converged => exact absurd rfl stopped
  | stepBudget => rfl
  | cancelled => rfl

-- A result adds to one of the counts, the one that its answer belongs to.
theorem add_keeps (tally : Tally) (answer : Answer) (result : SweepResult) (keeps : Keeps answer result) :
    tally.add result = ⟨tally.converged + (if answer.hasConverged then 1 else 0),
        tally.exhausted + (if answer.hasStopped then 1 else 0), tally.failed + (if answer.hasFailed then 1 else 0),
        (convergedRegret? result).toList.foldl Arithmetic.max tally.worst⟩ ∧
      (if answer.hasConverged then 1 else 0) + (if answer.hasStopped then 1 else 0) +
        (if answer.hasFailed then 1 else 0) = 1 := by
  cases keeps with
  | failed failure => exact ⟨rfl, rfl⟩
  | converged report profile regret converged =>
      have different : (report.termination != .converged) = false := by rw [converged]; rfl
      have same : (report.termination == .converged) = true := by rw [converged]; rfl
      rw [Answer.hasConverged, Answer.hasStopped, same, different]
      exact ⟨rfl, rfl⟩
  | stopped report regret stopped =>
      have different : (report.termination != .converged) = true := bne_iff_ne.mpr stopped
      have same : (report.termination == .converged) = false := beq_eq_false_iff_ne.mpr stopped
      rw [Answer.hasConverged, Answer.hasStopped, same, different, add_stopped tally _ regret stopped,
        stopped_regret _ regret stopped]
      exact ⟨rfl, rfl⟩

-- The induction is over the runs and carries the counts so far.
theorem fold_keeps (answers : List Answer) (results : List SweepResult) (all : List.Forall₂ Keeps answers results)
    (tally : Tally) :
    results.foldl Tally.add tally = ⟨tally.converged + answers.countP Answer.hasConverged,
        tally.exhausted + answers.countP Answer.hasStopped, tally.failed + answers.countP Answer.hasFailed,
        (results.filterMap convergedRegret?).foldl Arithmetic.max tally.worst⟩ ∧
      answers.countP Answer.hasConverged + answers.countP Answer.hasStopped + answers.countP Answer.hasFailed =
        answers.length := by
  induction all generalizing tally with
  | nil => exact ⟨rfl, rfl⟩
  | @cons answer result answers results keeps _ ih =>
      obtain ⟨added, one⟩ := add_keeps tally answer result keeps
      obtain ⟨later, sum⟩ := ih (tally.add result)
      have regrets : (result :: results).filterMap convergedRegret? =
          (convergedRegret? result).toList ++ results.filterMap convergedRegret? := by
        cases regret : convergedRegret? result with
        | none => exact List.filterMap_cons_none regret
        | some value => exact List.filterMap_cons_some regret
      refine ⟨?_, ?_⟩
      · rw [List.foldl_cons, later, added, regrets, List.foldl_append]
        simp only [List.countP_cons, Nat.add_assoc, Nat.add_comm (List.countP _ answers)]
      · simp only [List.countP_cons, List.length_cons]
        omega

-- The regrets stand beside the answers that converged.
theorem converged_regrets (answers : List Answer) (results : List SweepResult)
    (all : List.Forall₂ Keeps answers results) :
    List.Forall₂ (fun answer regret => Gain regret ∧ answer.HasRegret regret) (answers.filter Answer.hasConverged)
      (results.filterMap convergedRegret?) := by
  induction all with
  | nil => exact .nil
  | @cons answer result answers results keeps _ ih =>
      cases keeps with
      | failed failure => exact ih
      | converged report profile regret converged single regretted gain =>
          have same : Answer.hasConverged (.ok (.ok report)) = true := beq_iff_eq.mpr converged
          rw [List.filter_cons_of_pos same]
          exact .cons ⟨gain, report, profile, rfl, converged, single, regretted⟩ ih
      | stopped report regret stopped =>
          have different : ¬ Answer.hasConverged (.ok (.ok report)) = true := fun same => stopped (beq_iff_eq.mp same)
          rw [List.filter_cons_of_neg different, List.filterMap_cons_none (stopped_regret _ regret stopped)]
          exact ih

theorem has_regret_converged (answer : Answer) (regret : Float) (has : answer.HasRegret regret) :
    answer.hasConverged = true := by
  obtain ⟨report, profile, rfl, converged, -⟩ := has
  exact beq_iff_eq.mpr converged

theorem has_regret_unique (answer : Answer) (regret other : Float) (has : answer.HasRegret regret)
    (hasOther : answer.HasRegret other) : regret = other := by
  obtain ⟨report, profile, rfl, -, single, regretted⟩ := has
  obtain ⟨_, another, same, -, single', regretted'⟩ := hasOther
  cases same
  cases single.symm.trans single'
  exact Except.ok.inj (regretted.symm.trans regretted')

theorem empty_worst : Tally.empty.worst = Arithmetic.zero := rfl

theorem fold_counts (config : Config Float) (dims : Dimensions) (count seed : Nat) (results : List SweepResult)
    (all : List.Forall₂ (fun index result => Keeps (answer config dims (seed + index)) result) (List.range count)
      results) :
    (results.foldl Tally.add .empty).Counts config dims count seed := by
  obtain ⟨answers, same⟩ : ∃ answers, answers = (List.range count).map fun index => answer config dims (seed + index) :=
    ⟨_, rfl⟩
  have kept : List.Forall₂ Keeps answers results := by
    rw [same]
    exact List.forall₂_map_left_iff.mpr all
  obtain ⟨folded, sum⟩ := fold_keeps answers results kept .empty
  have regrets := converged_regrets answers results kept
  have number : answers.countP Answer.hasConverged = (results.filterMap convergedRegret?).length := by
    rw [List.countP_eq_length_filter, regrets.length_eq]
  have counts (p : Answer → Bool) :
      answers.countP p = (List.range count).countP fun index => p (answer config dims (seed + index)) := by
    rw [same, List.countP_map]
    rfl
  have known (index : Nat) (below : index < count) : answer config dims (seed + index) ∈ answers := by
    rw [same]
    exact List.mem_map_of_mem (List.mem_range.mpr below)
  have gains : ∀ regret ∈ results.filterMap convergedRegret?, Gain regret := fun regret listed => by
    obtain ⟨_, -, gain, -⟩ := forall₂_source _ _ regrets regret listed
    exact gain
  obtain ⟨attained, above⟩ := largest_of_gains _ gains
  have owner (index : Nat) (below : index < count) (converged : (answer config dims (seed + index)).hasConverged) :
      ∃ regret ∈ results.filterMap convergedRegret?, (answer config dims (seed + index)).HasRegret regret := by
    obtain ⟨regret, listed, -, has⟩ := forall₂_value _ _ regrets _ (List.mem_filter.mpr ⟨known index below, converged⟩)
    exact ⟨regret, listed, has⟩
  have worst : (results.filterMap convergedRegret?).foldl Arithmetic.max Tally.empty.worst =
      Arithmetic.largest (results.filterMap convergedRegret?) := by rw [empty_worst, Arithmetic.largest]
  have length : answers.length = count := by rw [same, List.length_map, List.length_range]
  rw [folded, worst]
  simp only [Tally.empty, Nat.zero_add]
  exact {
    total := sum.trans length
    converged := counts Answer.hasConverged
    exhausted := counts Answer.hasStopped
    failed := counts Answer.hasFailed
    regrets := fun index below converged => by
      obtain ⟨regret, -, has⟩ := owner index below converged
      exact ⟨regret, has⟩
    none := fun nothing => by
      rw [List.length_eq_zero_iff.mp (number.symm.trans nothing)]
      rfl
    attained := fun some => by
      have present := List.length_pos_iff.mp (number ▸ some)
      obtain ⟨holder, listed, -, has⟩ := forall₂_source _ _ regrets _ (attained present)
      rw [same] at listed
      obtain ⟨index, inside, rfl⟩ := List.mem_map.mp (List.mem_of_mem_filter listed)
      exact ⟨index, List.mem_range.mp inside, has⟩
    largest := fun index below regret has => by
      obtain ⟨kept, listed, hasKept⟩ := owner index below (has_regret_converged _ regret has)
      rw [has_regret_unique _ regret kept has hasKept]
      exact above kept listed }

/-! Programs that do not end before their end. -/

section Programs

variable {m : Type → Type} [Monad m] {α β : Type}

def Completes (program : Program m α) : Prop := ∃ plain : m α, program = ExceptT.lift plain

-- The last thing that the program does.
def EndsWith (program : Program m Unit) (last : m Unit) : Prop :=
  ∃ before : m Unit, program = ExceptT.lift (before >>= fun _ => last)

theorem completes_lift (plain : m α) : Completes (liftM plain : Program m α) := ⟨plain, rfl⟩

variable [LawfulMonad m]

theorem lift_bind (first : m α) (next : α → m β) :
    (ExceptT.lift (first >>= next) : Program m β) = ExceptT.lift first >>= fun value => ExceptT.lift (next value) := by
  ext
  simp

theorem completes_pure (value : α) : Completes (pure value : Program m α) := by
  refine ⟨pure value, ?_⟩
  ext
  simp

theorem completes_bind (first : Program m α) (next : α → Program m β) (completes : Completes first)
    (each : ∀ value, Completes (next value)) : Completes (first >>= next) := by
  obtain ⟨plain, rfl⟩ := completes
  choose later same using each
  refine ⟨plain >>= later, ?_⟩
  rw [lift_bind]
  exact bind_congr same

theorem ends_with_bind (first : Program m α) (next : α → Program m Unit) (last : m Unit) (completes : Completes first)
    (each : ∀ value, EndsWith (next value) last) : EndsWith (first >>= next) last := by
  obtain ⟨plain, rfl⟩ := completes
  choose before same using each
  refine ⟨plain >>= before, ?_⟩
  rw [bind_assoc, lift_bind]
  exact bind_congr same

theorem ends_with_last (last : m Unit) : EndsWith (liftM last) last := ⟨pure (), by rw [pure_bind]; rfl⟩

theorem for_in_completes (items : List α) (body : α → Unit → Program m (ForInStep Unit))
    (each : ∀ item, Completes (body item ())) : Completes (forIn items () body) := by
  induction items with
  | nil => exact completes_pure ()
  | cons first rest ih =>
      rw [List.forIn_cons]
      refine completes_bind _ _ (each first) fun step => ?_
      cases step with
      | done => exact completes_pure ()
      | yield => exact ih

theorem log_events_completes (host : Host m) (events : List (Event Float)) : Completes (host.logEvents events) := by
  induction events with
  | nil => exact completes_pure ()
  | cons event rest ih =>
      refine completes_bind _ _ ?_ fun _ => ih
      dsimp only
      cases Record.ofEvent event with
      | none => exact completes_pure ()
      | some record => exact completes_lift (host.log record)

end Programs

/-! The sweep. -/

section Sweep

variable {m : Type → Type} [Monad m]

-- Goes on with what was read, unless the program ended there.
def onward {α : Type} (next : α → m Exit) : Except Exit α → m Exit
  | .error exit => pure exit
  | .ok value => next value

theorem leveled_info (host : Host m) (verbose : Bool) (text : String) :
    (host.leveled verbose).log ⟨.info, text⟩ = host.log ⟨.info, text⟩ := by
  have loud : (Level.info != .debug) = true := rfl
  rw [Host.leveled]
  dsimp only
  rw [loud, Bool.or_true, if_pos rfl]

theorem perform_run (host : Host m) (verbose : Bool) (command : Command) :
    perform host (.run verbose command) =
      (execute (host.leveled verbose) command).run >>= onward fun _ => pure .success := by
  rw [perform]
  refine bind_congr fun outcome => ?_
  cases outcome with
  | error exit => rfl
  | ok done => rfl

variable [LawfulMonad m]

theorem sweep_rest (host : Host m) (dims : Dimensions) (count seed : Nat) (settings : Option String) :
    ∃ rest : Config Float → Program m Unit,
      sweep host dims count seed settings = (readSettings host settings >>= rest) ∧ ∀ config,
      (∀ runs, sweepRuns config dims count seed = .ok runs →
        EndsWith (rest config) (host.log ⟨.info, ((runs.map Prod.fst).foldl Tally.add Tally.empty).summary⟩)) ∧
      ∀ fault, sweepRuns config dims count seed = .error fault →
        rest config = (liftM host.clock >>= fun _ => throw (Exit.fault fault)) := by
  refine ⟨_, rfl, fun config => ⟨fun runs run => ?_, fun fault failed => ?_⟩⟩
  · refine ends_with_bind _ _ _ (completes_lift host.clock) fun opened => ?_
    rw [run, checked, pure_bind]
    refine ends_with_bind _ _ _ (completes_lift host.clock) fun closed => ?_
    refine ends_with_bind _ _ _ (for_in_completes runs _ fun item =>
      completes_bind _ _ (log_events_completes host item.2) fun _ => completes_pure _) fun _ => ?_
    refine ends_with_bind _ _ _ (for_in_completes runs.zipIdx _ fun item => ?_) fun _ => ?_
    · obtain ⟨⟨result, events⟩, index⟩ := item
      dsimp only
      cases sweepRecord? (seed + index) result with
      | none => exact completes_pure _
      | some record => exact completes_bind _ _ (completes_lift (host.log record)) fun _ => completes_pure _
    · exact ends_with_bind _ _ _ (completes_lift _) fun _ => ends_with_last _
  · refine bind_congr fun opened => ?_
    rw [failed, checked]
    ext
    simp

theorem perform_sweep (host : Host m) (dims : Dimensions) (count seed : Nat) (settings : Option String)
    (verbose : Bool) (rest : Config Float → Program m Unit)
    (same : sweep (host.leveled verbose) dims count seed settings =
      readSettings (host.leveled verbose) settings >>= rest) :
    perform host (.run verbose (.sweep dims count seed settings)) =
      (readSettings (host.leveled verbose) settings).run >>= onward fun config =>
        (rest config).run >>= onward fun _ => pure .success := by
  rw [perform_run, execute, same, ExceptT.run_bind, bind_assoc]
  refine bind_congr fun outcome => ?_
  cases outcome with
  | error exit => exact pure_bind _ _
  | ok config => rfl

-- Every run is counted once, as its answer says; only a seed that is no word, or a table of the results that cannot be
-- addressed, keeps a sweep from its summary.
theorem sweep_counts_every_run (host : Host m) (dims : Dimensions) (count seed : Nat) (settings : Option String)
    (verbose : Bool) (accepted : ∃ game, Game.random 1 dims seed.toUInt64 4 = .ok game) (word : Word.fits seed) :
    (Admissible count seed → ∃ (before : Config Float → m Unit) (tally : Config Float → Tally),
      (∀ config, (tally config).Counts config dims count seed) ∧
      perform host (.run verbose (.sweep dims count seed settings)) =
        (readSettings (host.leveled verbose) settings).run >>= onward fun config =>
          before config >>= fun _ => host.log ⟨.info, (tally config).summary⟩ >>= fun _ => pure .success) ∧
    (¬ Admissible count seed → perform host (.run verbose (.sweep dims count seed settings)) =
      (readSettings (host.leveled verbose) settings).run >>= onward fun _ =>
        host.clock >>= fun _ => pure (.fault (stop count))) := by
  have counted := (Game.random_succeeds_iff 1 dims seed.toUInt64 4 (by decide)).mp accepted
  obtain ⟨rest, same, steps⟩ := sweep_rest (host.leveled verbose) dims count seed settings
  rw [perform_sweep host dims count seed settings verbose rest same]
  constructor
  · intro admissible
    choose runs run all using fun config => sweep_runs_keep config dims count seed counted admissible
    choose before ends using fun config => (steps config).1 (runs config) (run config)
    refine ⟨before, fun config => ((runs config).map Prod.fst).foldl Tally.add .empty, fun config =>
      fold_counts config dims count seed _ (all config), ?_⟩
    refine congrArg _ (congrArg onward (funext fun config => ?_))
    rw [ends, leveled_info, ExceptT.run_lift, bind_map_left, bind_assoc]
    rfl
  · intro beyond
    refine congrArg _ (congrArg onward (funext fun config => ?_))
    rw [(steps config).2 (stop count) (sweep_runs_stop config dims count seed counted word beyond)]
    rw [ExceptT.run_bind, liftM, ExceptT.run_monadLift, bind_map_left, bind_assoc]
    refine bind_congr fun opened => ?_
    exact pure_bind _ _

end Sweep

-- The runs up to the largest seed are counted, and with one run more the sweep ends before its summary.
theorem sweep_counts_every_run_largest_seed :
    (∃ game, Game.random 1 [2, 2] (18446744073709551613 : Nat).toUInt64 4 = .ok game) ∧
    Word.fits 18446744073709551613 ∧ Admissible 3 18446744073709551613 ∧ ¬ Admissible 4 18446744073709551613 ∧
    (perform Memory.host (.run false (.sweep [2, 2] 3 18446744073709551613 none)) (Memory.ofFiles [])).1 = .success ∧
    (perform Memory.host (.run false (.sweep [2, 2] 4 18446744073709551613 none)) (Memory.ofFiles [])).1 =
      .fault .overflow := by
  have accepted := (Game.random_succeeds_iff 1 [2, 2] (18446744073709551613 : Nat).toUInt64 4 (by decide)).mpr (by decide)
  have word : Word.fits 18446744073709551613 := by decide
  have fits : Admissible 3 18446744073709551613 := ⟨by decide, by decide⟩
  have beyond : ¬ Admissible 4 18446744073709551613 := fun fits => absurd fits.seeds (by decide)
  obtain ⟨counted, -⟩ := sweep_counts_every_run Memory.host [2, 2] 3 18446744073709551613 none false accepted word
  obtain ⟨-, stopped⟩ := sweep_counts_every_run Memory.host [2, 2] 4 18446744073709551613 none false accepted word
  obtain ⟨before, tally, -, ends⟩ := counted fits
  refine ⟨accepted, word, fits, beyond, ?_, ?_⟩
  · rw [ends]
    rfl
  · rw [stopped beyond]
    rfl

-- The largest seed is one that the command line takes, and a second run has none.
theorem sweep_past_largest_seed :
    (∃ game, Game.random 1 [0] (18446744073709551615 : Nat).toUInt64 4 = .ok game) ∧
    Request.ofArgs? false ["sweep", "--dims", "0", "--count", "2", "--seed", "18446744073709551615"] =
      some (.run false (.sweep [0] 2 18446744073709551615 none)) ∧
    (run Memory.host ["sweep", "--dims", "0", "--count", "2", "--seed", "18446744073709551615"]
      (Memory.ofFiles [])).1 = .fault .overflow := by
  refine ⟨⟨_, rfl⟩, ?_, ?_⟩
  · rfl
  · rfl

end NormalForm.Cli
