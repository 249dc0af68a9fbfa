import NormalForm.Proofs.Exact.Reversal

/-!
The unit of payoff of a game. A game and one with all payoffs multiplied by a constant start alike and take
the same steps, except where the heading of a merge counts in one of them only.
-/

set_option autoImplicit false

namespace NormalForm

-- The second game is the first with all payoffs multiplied by a constant.
structure Game.Multiplies (c : Rat) (one other : Game) : Prop where
  dims : other.dimensions = one.dimensions
  cells : other.cells = one.cells
  payoffs : other.outcomes.toList.map Outcome.payoffs =
    one.outcomes.toList.map fun outcome => outcome.payoffs.map fun payoff => c * payoff

namespace Game

theorem shapes_multiply (c : Rat) (one other : Game) (dims : Dimensions) (rows : List (List Rat))
    (shape : one.Shape dims rows) (multiple : other.Shape dims (rows.map (List.map fun payoff => c * payoff))) :
    one.Multiplies c other := by
  refine ⟨multiple.dims.trans shape.dims.symm, ?_, ?_⟩
  · apply Array.ext'
    rw [multiple.cells, shape.cells, List.length_map]
  · rw [multiple.payoffs, ← shape.payoffs, List.map_map]
    rfl

theorem payoff_at_multiplied (c : Rat) (one other : Game) (multiplies : one.Multiplies c other) (index player : Nat) :
    other.payoffAt index player = (one.payoffAt index player).map fun payoff => c * payoff := by
  have cells : other.cell index = one.cell index := by rw [Game.cell, Game.cell, multiplies.cells]
  rw [payoffAt, payoffAt, cells, bind_map]
  refine bind_congr fun held => ?_
  cases held with
  | none => exact congrArg Except.ok (mul_zero c).symm
  | some place =>
      have rows := congrArg (fun payoffs => entry payoffs place) multiplies.payoffs
      have found : (entry other.outcomes.toList place).map Outcome.payoffs =
          (entry one.outcomes.toList place).map fun outcome => outcome.payoffs.map fun payoff => c * payoff := by
        rwa [entry_map, entry_map] at rows
      simp only
      cases here : entry one.outcomes.toList place with
      | error fault =>
          cases there : entry other.outcomes.toList place with
          | error otherFault =>
              rw [here, there] at found
              exact congrArg Except.error (Except.error.inj found)
          | ok outcome =>
              rw [here, there] at found
              cases found
      | ok outcome =>
          cases there : entry other.outcomes.toList place with
          | error fault =>
              rw [here, there] at found
              cases found
          | ok otherOutcome =>
              rw [here, there] at found
              have payoffs : otherOutcome.payoffs = outcome.payoffs.map fun payoff => c * payoff := Except.ok.inj found
              rw [ok_bind, ok_bind, payoffs, entry_map]

theorem payoff_scale_multiplied (c : Rat) (positive : 0 < c) (one other : Game) (multiplies : one.Multiplies c other) :
    (other.payoffScale : ℝ) = c * one.payoffScale := by
  have above : (0 : ℝ) < c := Rat.cast_pos.mpr positive
  rw [payoff_scale_eq, payoff_scale_eq, multiplies.payoffs, ← Exact.largest_multiplied (c : ℝ) above]
  refine congrArg Arithmetic.largest ?_
  rw [List.map_flatMap, List.flatMap_map, List.flatMap_map]
  refine List.flatMap_congr fun outcome _ => ?_
  rw [List.map_map, List.map_map]
  refine List.map_congr_left fun payoff _ => ?_
  simp only [Function.comp_apply, Rat.cast_mul, abs_mul, abs_of_pos above]

theorem table_multiplied (c : Rat) (large : 1 ≤ c) (one other : Game) (valid : one.WellFormed)
    (otherValid : other.WellFormed) (multiplies : one.Multiplies c other) (scale : 1 ≤ (one.payoffScale : ℝ)) :
    (PayoffTable.ofGame one : PayoffTable ℝ).Multiplies c (.ofGame other) := by
  have above : (1 : ℝ) ≤ c := by exact_mod_cast large
  refine ⟨⟨multiplies.dims, ?_⟩, ?_⟩
  · intro index player _
    rw [PayoffTable.payoff_of_game one valid, PayoffTable.payoff_of_game other otherValid,
      payoff_at_multiplied c one other multiplies]
    cases one.payoffAt index player with
    | error fault => rfl
    | ok payoff => exact congrArg Except.ok (Rat.cast_mul c payoff)
  · have scales : (other.payoffScale : ℝ) = c * one.payoffScale :=
      payoff_scale_multiplied c (zero_lt_one.trans_le large) one other multiplies
    have larger : (1 : ℝ) ≤ c * one.payoffScale := one_le_mul_of_one_le_of_one_le above scale
    have left : max (other.payoffScale : ℝ) 1 = c * one.payoffScale := by rw [scales, max_eq_left larger]
    have right : max (one.payoffScale : ℝ) 1 = one.payoffScale := max_eq_left scale
    exact left.trans (congrArg (fun size => (c : ℝ) * size) right.symm)

-- The start is accepted alike, a step is the same where a pending merge is settled alike, and so is a
-- run all of whose steps are.
theorem solve_in_another_unit {m : Type → Type} [Monad m] [LawfulMonad m] (c : Rat) (large : 1 ≤ c) (one other : Game)
    (reachable : one.Reachable) (otherReachable : other.Reachable) (multiplies : one.Multiplies c other)
    (scale : 1 ≤ (one.payoffScale : ℝ)) (config : Config ℝ) :
    (Path.start (.ofGame other) config = (Path.start (.ofGame one) config).map fun outcome =>
      (outcome.mapError (SolveError.inUnit fun payoff : ℝ => c * payoff)).map fun path =>
        path.withTable (.ofGame other)) ∧
    (∀ (path : Path ℝ) (step : Nat), path.Valid → path.table = .ofGame one → path.TurnsNextAlike c →
      (path.withTable (.ofGame other)).advance step config =
        (path.advance step config).map fun attempt => attempt.withTable (.ofGame other)) ∧
    ∀ (sink : StatusSink m ℝ) (path : Path ℝ), Path.start (.ofGame one) config = .ok (.ok path) →
      (∀ run : Run ℝ, run.Reached (.ofGame one) config → run.aboveFloor config → run.path.TurnsNextAlike c) →
        other.solve config sink =
          Except.map (fun ending => ending.withTable (.ofGame other)) <$> one.solve config sink := by
  have valid := reachable_well_formed one reachable
  have otherValid := reachable_well_formed other otherReachable
  have above : (1 : ℝ) ≤ c := by exact_mod_cast large
  have unit : (0 : ℝ) < c := zero_lt_one.trans_le above
  have table := table_multiplied c large one other valid otherValid multiplies scale
  have begins := Path.start_over _ (Exact.multiplication_rescales c unit) _ _ table.payoffs config fun values => by
    rw [Exact.max_eq, Exact.max_eq, Exact.one_eq, table.scale, mul_left_comm, Exact.by_payoff_multiplied c unit]
  refine ⟨begins, ?_, ?_⟩
  · intro path step pathValid same alike
    exact path.advance_multiplied c above pathValid _ (same ▸ table) alike step config
  · intro sink path begun alike
    have complete : (PayoffTable.ofGame one : PayoffTable ℝ).Complete := PayoffTable.of_game_complete one valid
    have words := Dimensions.words_of_count one.dimensions valid.addressable
    rw [begun] at begins
    refine PayoffTable.solve_over _ _ table.payoffs.dims complete words config sink path begun begins ?_
    intro run reached floor
    obtain ⟨pathValid, same⟩ := Run.reached_valid _ complete words config run reached
    exact run.path.advance_multiplied c above pathValid _ (same ▸ table) (alike run reached floor) _ config

end Game

/-! A run of one step, in two units. -/

namespace Crossing

def doubled : List Game.Operation :=
  cell 1 [0, 0] 0 2 ++ cell 2 [1, 0] 2 2 ++ cell 3 [2, 0] 4 2 ++
    cell 4 [0, 1] 20 0 ++ cell 5 [1, 1] 16 0 ++ cell 6 [2, 1] 12 0

theorem made_once : ∃ game, (Game.blank [3, 2]).performAll history = .ok game ∧
    game.Shape [3, 2] [[0, 1], [1, 1], [2, 1], [10, 0], [8, 0], [6, 0]] :=
  ⟨_, rfl, rfl, rfl, rfl⟩

theorem made_twice : ∃ game, (Game.blank [3, 2]).performAll doubled = .ok game ∧
    game.Shape [3, 2] [[0, 2], [2, 2], [4, 2], [20, 0], [16, 0], [12, 0]] :=
  ⟨_, rfl, rfl, rfl, rfl⟩

-- The long step goes below this floor.
noncomputable def halfway : Config ℝ := { stride with lambdaFloor := Arithmetic.ofRat (1 / 2), maxSteps := 10 }

theorem above_half (run : Run ℝ) (above : run.aboveFloor halfway) : 1 / 2 < run.path.lambda := by
  have floor : halfway.lambdaFloor = 1 / 2 := by norm_num [halfway, Arithmetic.ofRat]
  exact floor ▸ of_decide_eq_true above

theorem starts_only (scale : ℝ) (run : Run ℝ) (reached : run.Reached (table scale) halfway) :
    run = .ofPath (start (center scale)) ∨ run.path.lambda ≤ 1 / 3 := by
  induction reached with
  | start path begun =>
      rw [starts scale halfway rfl] at begun
      cases begun
      exact .inl rfl
  | step run next _ above taken ih =>
      have floor := above_half run above
      rcases ih with rfl | low
      · obtain ⟨attempt, advanced, whole, -, lambda, -⟩ := first_attempt scale
        have same : (start (center scale)).advance 1 halfway = .ok attempt := advanced
        have path : (Run.ofPath (start (center scale))).path = start (center scale) := rfl
        have number : (Run.ofPath (start (center scale))).steps + 1 = 1 := rfl
        rw [Run.step, path, number, same, ok_bind, whole] at taken
        cases taken
        obtain ⟨-, far, -⟩ := share_bounds
        refine .inr (lambda.trans_le ?_)
        linarith
      · linarith

end Crossing

namespace Game

theorem solve_in_another_unit_crossing :
    ∃ one other, (blank [3, 2]).performAll Crossing.history = .ok one ∧
      (blank [3, 2]).performAll Crossing.doubled = .ok other ∧ one.Multiplies 2 other ∧
      ∃ ending, one.solve Crossing.halfway (StatusSink.silent : StatusSink Id ℝ) = .ok ending ∧
        other.solve Crossing.halfway (StatusSink.silent : StatusSink Id ℝ) =
          .ok (ending.withTable (.ofGame other)) := by
  obtain ⟨one, made, shape⟩ := Crossing.made_once
  obtain ⟨other, madeTwice, twice⟩ := Crossing.made_twice
  have multiplies : one.Multiplies 2 other := shapes_multiply 2 one other _ _ shape (by norm_num [twice])
  have reachable : one.Reachable := ⟨[3, 2], _, _, rfl, made⟩
  have otherReachable : other.Reachable := ⟨[3, 2], _, _, rfl, madeTwice⟩
  have valid := reachable_well_formed one reachable
  have scale : 1 ≤ (one.payoffScale : ℝ) := by
    rw [payoff_scale_eq, shape.payoffs]
    simp [Arithmetic.largest]
  have table : (PayoffTable.ofGame one : PayoffTable ℝ) = Crossing.table one.payoffScale := by
    obtain ⟨game, gameMade, same⟩ := Crossing.made
    cases gameMade.symm.trans made
    exact same
  have begun : Path.start (.ofGame one) Crossing.halfway =
      .ok (.ok (Crossing.start (Crossing.center one.payoffScale))) := by
    rw [table]
    exact Crossing.starts _ _ rfl
  obtain ⟨-, -, solves⟩ := solve_in_another_unit (m := Id) 2 (by norm_num) one other reachable otherReachable multiplies
    scale Crossing.halfway
  have same := solves StatusSink.silent _ begun fun run reached above => by
    rw [table] at reached
    have floor := Crossing.above_half run above
    rcases Crossing.starts_only _ run reached with rfl | low
    · rintro _ _ player upper rate ⟨⟩
    · linarith
  obtain ⟨endings, ended⟩ := PayoffTable.solve_succeeds _ (PayoffTable.of_game_complete one valid)
    (Dimensions.words_of_count one.dimensions valid.addressable) Crossing.halfway (StatusSink.silent : StatusSink Id ℝ)
  rw [← solve] at ended
  refine ⟨one, other, made, madeTwice, multiplies, _, ended, ?_⟩
  rw [same, ended]
  rfl

-- From one valid state the step leads to different profiles.
theorem unit_turns_merge :
    ∃ one other, (blank [2, 2]).performAll (Reversal.history 10 1) = .ok one ∧
      (blank [2, 2]).performAll (Reversal.history 1000000000 100000000) = .ok other ∧
      one.Multiplies 100000000 other ∧ 1 ≤ (one.payoffScale : ℝ) ∧
      ∃ path : Path ℝ, path.Valid ∧ path.table = .ofGame one ∧
        ∃ attempt otherAttempt left right, path.advance 1 Reversal.stride = .ok attempt ∧
          (path.withTable (.ofGame other)).advance 1 Reversal.stride = .ok otherAttempt ∧
          attempt.failure = none ∧ otherAttempt.failure = none ∧
          attempt.path.profile.probability 0 0 = .ok left ∧
          otherAttempt.path.profile.probability 0 0 = .ok right ∧ left < right := by
  obtain ⟨one, made, shape⟩ := Reversal.made_small
  obtain ⟨other, otherMade, otherShape⟩ := Reversal.made_large
  have valid := reachable_well_formed one ⟨[2, 2], _, _, rfl, made⟩
  have otherValid := reachable_well_formed other ⟨[2, 2], _, _, rfl, otherMade⟩
  have multiplies : one.Multiplies 100000000 other :=
    shapes_multiply 100000000 one other _ _ shape (by norm_num [otherShape])
  have table := Reversal.of_game one shape
  have scale : 1 ≤ (one.payoffScale : ℝ) := by
    have largest : (one.payoffScale : ℝ) = 10 := congrArg PayoffTable.scale table
    rw [largest]
    norm_num
  have tables := table_multiplied 100000000 (by norm_num) one other valid otherValid multiplies scale
  rw [table, Rat.cast_ofNat] at tables
  obtain ⟨attempt, advanced, whole, left⟩ := Reversal.small_step
  obtain ⟨otherAttempt, otherAdvanced, otherWhole, right⟩ := Reversal.large_step _ tables
    (PayoffTable.of_game_complete other otherValid)
  obtain ⟨positive, -⟩ := Reversal.share_bounds
  refine ⟨one, other, made, otherMade, multiplies, scale, Reversal.path, Reversal.path_valid, table.symm, attempt,
    otherAttempt, _, _, advanced, otherAdvanced, whole, otherWhole, left, right, ?_⟩
  linarith

end Game

end NormalForm
