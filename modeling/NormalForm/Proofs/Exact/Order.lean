import NormalForm.Proofs.Exact.Crossing

/-!
The order of classes along the path, in exact arithmetic. After a step the better of two neighbouring
classes earns more, unless the step has merged the upper one or made the lower one. A merged class is
not held against the class below it again, and may earn less.
-/

set_option autoImplicit false

namespace NormalForm

-- The first member of the upper class earns strictly more than that of the lower class.
def Mixed.Descends (profile : Mixed ℝ) (player : Nat) (upper lower : List Nat) : Prop :=
  ∃ first second better worse, Ranking.representative upper = .ok first ∧
    Ranking.representative lower = .ok second ∧ profile.strategyValue player first = .ok better ∧
    profile.strategyValue player second = .ok worse ∧ worse < better

theorem Mixed.outranks_descends (profile : Mixed ℝ) (player : Nat) (upper lower : List Nat)
    (outranks : profile.Outranks player upper lower) : profile.Descends player upper lower := by
  obtain ⟨first, second, better, worse, up, low, above, below, ordered⟩ := outranks
  exact ⟨first, second, better, worse, up, low, above, below, not_le.mp (of_decide_eq_false ordered)⟩

theorem Run.step_in_order {α : Type} [Scalar α] (config : Config α) (run next : Run α) (valid : run.path.Valid)
    (taken : run.step config = .ok (.ok next)) (player : Nat) (before after : Ranking)
    (was : run.path.rankings[player]? = some before) (now : next.path.rankings[player]? = some after) :
    Path.InOrder next.path.profile player before after := by
  obtain ⟨attempt, advanced, taken⟩ := bind_eq_ok.mp taken
  dsimp only at taken
  split at taken
  · cases taken
  · rename_i whole
    cases taken
    exact Path.advance_in_order run.path valid (run.steps + 1) config attempt advanced whole player before after was now

-- Two neighbours after a step: the upper lies in a class of before, so that it was not merged, and the
-- lower is a class of before.
theorem Game.step_keeps_untouched_order (game : Game) (reachable : game.Reachable) (config : Config ℝ)
    (run : Run ℝ) (reached : run.Reached (.ofGame game) config) :
    ∃ outcome, run.step config = .ok outcome ∧ ∀ next, outcome = .ok next →
      ∀ (player : Nat) (before after : Ranking), run.path.rankings[player]? = some before →
        next.path.rankings[player]? = some after → ∀ (k : Nat) (upper lower : List Nat),
          after.classes[k]? = some upper → after.classes[k + 1]? = some lower →
          Ranking.Within upper before.classes → lower ∈ before.classes →
          next.path.profile.Descends player upper lower := by
  have gameValid := reachable_well_formed game reachable
  have complete : (PayoffTable.ofGame game : PayoffTable ℝ).Complete :=
    PayoffTable.of_game_complete game gameValid
  have words := Dimensions.words_of_count game.dimensions gameValid.addressable
  obtain ⟨valid, -⟩ := Run.reached_valid _ complete words config run reached
  obtain ⟨outcome, -, taken, -⟩ := Run.step_succeeds run valid config
  refine ⟨outcome, taken, ?_⟩
  rintro next rfl player before after was now k upper lower up low within kept
  apply Mixed.outranks_descends
  exact Run.step_in_order config run next valid taken player before after was now k upper lower up low within kept

theorem Game.step_keeps_untouched_order_crossing :
    ∃ game, (blank [3, 2]).performAll Crossing.history = .ok game ∧
      ∃ run next : Run ℝ, run.step Crossing.stride = .ok (.ok next) ∧
        next.path.rankings[1]? = some ⟨[[0], [1]]⟩ ∧ next.path.profile.Descends 1 [0] [1] := by
  obtain ⟨game, made, table⟩ := Crossing.made
  have begun := Crossing.starts game.payoffScale Crossing.stride rfl
  rw [← table] at begun
  obtain ⟨next, taken, -, -, rankings⟩ := Crossing.first_step game.payoffScale
  have now : next.path.rankings[1]? = some ⟨[[0], [1]]⟩ := by
    rw [rankings]
    rfl
  obtain ⟨outcome, same, descends⟩ := step_keeps_untouched_order game ⟨[3, 2], _, _, rfl, made⟩ Crossing.stride
    (.ofPath (Crossing.start (Crossing.center game.payoffScale))) (.start _ begun)
  cases taken.symm.trans same
  have within : Ranking.Within [0] [[0], [1]] := ⟨[0], List.mem_cons_self, fun strategy member => member⟩
  exact ⟨game, made, _, next, taken, now, descends next rfl 1 _ _ rfl now 0 [0] [1] rfl rfl within (by decide)⟩

-- The step merges two classes into one that the class below exceeds.
theorem Game.merged_class_below_its_neighbour :
    ∃ game, (blank [3, 2]).performAll Crossing.history = .ok game ∧
      ∃ next : Run ℝ, next.Reached (.ofGame game) Crossing.stride ∧ 0 < next.steps ∧
        ∃ ranking upper lower, next.path.rankings[0]? = some ranking ∧ ranking.classes[0]? = some upper ∧
          ranking.classes[1]? = some lower ∧ ¬ next.path.profile.Descends 0 upper lower := by
  obtain ⟨game, made, table⟩ := Crossing.made
  have begun := Crossing.starts game.payoffScale Crossing.stride rfl
  rw [← table] at begun
  obtain ⟨next, taken, steps, profile, rankings⟩ := Crossing.first_step game.payoffScale
  have above : (Run.ofPath (Crossing.start (Crossing.center game.payoffScale))).aboveFloor Crossing.stride :=
    decide_eq_true one_pos
  have reached := Run.Reached.step _ next (.start _ begun) above taken
  have here : next.path.rankings[0]? = some ⟨[[0, 1], [2]]⟩ := by
    rw [rankings]
    rfl
  refine ⟨game, made, next, reached, steps ▸ one_pos, _, [0, 1], [2], here, rfl, rfl, ?_⟩
  rintro ⟨first, second, better, worse, ⟨⟩, ⟨⟩, above, below, ordered⟩
  obtain ⟨zero, one, two, firstValue, -, thirdValue, -, exceeded⟩ := Crossing.values_cross game.payoffScale
  rw [profile] at above below
  cases firstValue.symm.trans above
  cases thirdValue.symm.trans below
  exact absurd ordered (not_lt.mpr exceeded)

end NormalForm
