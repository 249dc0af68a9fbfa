import Mathlib.Order.Bounds.Basic
import NormalForm.Proofs.Exact.Expectation

/-!
The regret of a profile, in exact arithmetic. It is found among the strategies of each player alone; since a player's
payoff is the average of what the strategies earn, no mixture of them gains more, and the regret is zero in the
equilibria and nowhere else.
-/

set_option autoImplicit false

namespace NormalForm

-- Probabilities of the strategies of a player.
structure Mixture (count : Nat) (mixture : List ℝ) : Prop where
  length : mixture.length = count
  nonneg : ∀ share ∈ mixture, 0 ≤ share
  total : mixture.sum = 1

namespace Mixture

theorem sum_range (count : Nat) (mixture : List ℝ) (length : mixture.length = count) :
    ∑ strategy ∈ Finset.range count, mixture.getD strategy 0 = mixture.sum := by
  subst length
  rw [Finset.sum_range, ← Fin.sum_univ_getElem]
  exact Finset.sum_congr rfl fun strategy _ => List.getD_eq_getElem _ _ strategy.isLt

theorem entry_nonneg (count : Nat) (mixture : List ℝ) (mixes : Mixture count mixture) (strategy : Nat) :
    0 ≤ mixture.getD strategy 0 := by
  by_cases inside : strategy < mixture.length
  · rw [List.getD_eq_getElem _ _ inside]
    exact mixes.nonneg _ (List.getElem_mem inside)
  · rw [List.getD_eq_default _ _ (Nat.le_of_not_lt inside)]

-- An average is at most a bound of what it averages.
theorem average_le (count : Nat) (mixture : List ℝ) (mixes : Mixture count mixture) (values : Nat → ℝ) (bound : ℝ)
    (below : ∀ strategy < count, values strategy ≤ bound) :
    ∑ strategy ∈ Finset.range count, mixture.getD strategy 0 * values strategy ≤ bound := by
  calc ∑ strategy ∈ Finset.range count, mixture.getD strategy 0 * values strategy
      ≤ ∑ strategy ∈ Finset.range count, mixture.getD strategy 0 * bound :=
        Finset.sum_le_sum fun strategy listed => mul_le_mul_of_nonneg_left (below strategy (Finset.mem_range.mp listed))
          (mixes.entry_nonneg _ _ strategy)
    _ = bound := by rw [← Finset.sum_mul, sum_range count mixture mixes.length, mixes.total, one_mul]

-- One strategy alone.
def alone (count strategy : Nat) : List ℝ := (List.replicate count 0).set strategy 1

theorem alone_at (count strategy played : Nat) (below : strategy < count) :
    (alone count strategy).getD played 0 = if played = strategy then 1 else 0 := by
  rw [alone, List.getD_eq_getElem?_getD, List.getElem?_set, List.length_replicate, List.getElem?_replicate]
  by_cases same : played = strategy
  · simp [same, below]
  · by_cases inside : played < count
    · simp [same, Ne.symm same, inside]
    · simp [same, Ne.symm same, inside]

theorem alone_average (count strategy : Nat) (below : strategy < count) (values : Nat → ℝ) :
    ∑ played ∈ Finset.range count, (alone count strategy).getD played 0 * values played = values strategy := by
  simp only [alone_at count strategy _ below, ite_mul, one_mul, zero_mul]
  rw [Finset.sum_ite_eq', if_pos (Finset.mem_range.mpr below)]

theorem alone_mixes (count strategy : Nat) (below : strategy < count) : Mixture count (alone count strategy) := by
  have length : (alone count strategy).length = count := by simp [alone]
  refine ⟨length, fun share listed => ?_, ?_⟩
  · rcases List.mem_or_eq_of_mem_set listed with zero | one
    · rw [List.eq_of_mem_replicate zero]
    · rw [one]
      exact zero_le_one
  · rw [← sum_range count _ length]
    simpa using alone_average count strategy below fun _ => 1

end Mixture

namespace Mixed

/-! Deviations. -/

-- The profile in which a player plays another mixture.
def replace (profile : Mixed ℝ) (player : Nat) (mixture : List ℝ) : Mixed ℝ :=
  let start := profile.table.dims.offset player
  let before := profile.probabilities.take start
  let after := profile.probabilities.drop (start + profile.table.strategyCount player)
  { profile with probabilities := before ++ mixture ++ after }

theorem spliced_entry (entries mixture : List ℝ) (start place : Nat) (fits : start + mixture.length ≤ entries.length) :
    (entries.take start ++ mixture ++ entries.drop (start + mixture.length)).getD place 0 =
      if start ≤ place ∧ place < start + mixture.length then mixture.getD (place - start) 0 else entries.getD place 0 := by
  have front : (entries.take start).length = start := List.length_take_of_le (by omega)
  simp only [List.getD_eq_getElem?_getD, List.getElem?_append, List.length_append, front, List.getElem?_take,
    List.getElem?_drop]
  by_cases before : place < start
  · simp [before, Nat.not_le.mpr before, Nat.lt_add_right _ before]
  · by_cases own : place < start + mixture.length
    · simp [before, own, Nat.not_lt.mp before]
    · have back : start + mixture.length + (place - (start + mixture.length)) = place := by omega
      simp [own, back]

section Deviation

variable (profile : Mixed ℝ) (player : Nat) (inside : player < profile.table.dims.length)

include inside

theorem replace_own (own : List ℝ) (played : profile.ofPlayer player = .ok own) : profile.replace player own = profile := by
  rw [ofPlayer, profile.offset_inside player inside] at played
  cases played
  rw [replace, List.append_assoc, ← List.drop_drop, List.take_append_drop, List.take_append_drop]

variable (complete : profile.Complete)

include complete

theorem part_fits : profile.table.dims.offset player + profile.table.strategyCount player ≤ profile.probabilities.length := by
  have whole := Dimensions.total_around _ player _ (profile.table.strategy_count_inside player inside)
  have length := complete.length
  omega

variable (mixture : List ℝ) (length : mixture.length = profile.table.strategyCount player)

include length

theorem replaced_complete : (profile.replace player mixture).Complete := by
  have fits := profile.part_fits player inside complete
  have whole := complete.length
  refine ⟨complete.table, ?_⟩
  simp only [replace, List.length_append, List.length_take, List.length_drop, length]
  omega

theorem replaced_share (strategy : Nat) (below : strategy < profile.table.strategyCount player) :
    (profile.replace player mixture).share player strategy = mixture.getD strategy 0 := by
  have fits := profile.part_fits player inside complete
  rw [← length] at fits below
  have entry := spliced_entry _ mixture _ (profile.table.dims.offset player + strategy) fits
  rw [if_pos ⟨Nat.le_add_right _ _, Nat.add_lt_add_left below _⟩, Nat.add_sub_cancel_left, length] at entry
  exact entry

theorem replaced_other (other : Nat) (apart : other ≠ player) (strategy : Nat)
    (below : strategy < profile.table.strategyCount other) :
    (profile.replace player mixture).share other strategy = profile.share other strategy := by
  have fits := profile.part_fits player inside complete
  rw [← length] at fits
  have known := profile.table.strategy_count_inside player inside
  have otherKnown := profile.table.strategy_known other strategy below
  have outside : ¬ (profile.table.dims.offset player ≤ profile.table.dims.offset other + strategy ∧
      profile.table.dims.offset other + strategy < profile.table.dims.offset player + mixture.length) := by
    rcases Nat.lt_or_gt_of_ne apart with before | after
    · have order := Dimensions.offset_le_offset _ other player _ otherKnown before
      omega
    · have order := Dimensions.offset_le_offset _ player other _ known after
      omega
  have entry := spliced_entry _ mixture _ (profile.table.dims.offset other + strategy) fits
  rw [if_neg outside, length] at entry
  exact entry

-- What the strategies earn does not depend on how the player mixes them.
theorem replaced_payoff : (profile.replace player mixture).payoff player =
    .ok (∑ strategy ∈ Finset.range (profile.table.strategyCount player),
      mixture.getD strategy 0 * profile.mean player [(player, strategy)]) := by
  have replaced := profile.replaced_complete player inside complete mixture length
  rw [payoff_eq_mean _ replaced player inside, (profile.replace player mixture).mean_by_strategy player inside]
  refine congrArg Except.ok (Finset.sum_congr rfl fun strategy listed => ?_)
  have below := Finset.mem_range.mp listed
  rw [profile.replaced_share player inside complete mixture length strategy below]
  refine congrArg _ (profile.mean_congr _ player [(player, strategy)] fun other free played playedBelow => ?_)
  have apart : other ≠ player := by simpa using free
  exact profile.replaced_other player inside complete mixture length other apart played playedBelow

end Deviation

/-! Gains. -/

-- What a player adds to the payoff by playing another mixture.
noncomputable def gain (profile : Mixed ℝ) (player : Nat) (mixture : List ℝ) : Except Fault ℝ := do
  let before ← profile.payoff player
  let after ← (profile.replace player mixture).payoff player
  .ok (after - before)

-- What the players can gain, each of them alone.
def gains (profile : Mixed ℝ) : Set ℝ :=
  {gained | ∃ player < profile.players, ∃ mixture, Mixture (profile.table.strategyCount player) mixture ∧
    profile.gain player mixture = .ok gained}

-- Every player plays a mixture.
def Mixes (profile : Mixed ℝ) : Prop :=
  ∀ player < profile.players, ∃ mixture, profile.ofPlayer player = .ok mixture ∧
    Mixture (profile.table.strategyCount player) mixture

-- Nobody earns more by playing another mixture.
def IsEquilibrium (profile : Mixed ℝ) : Prop :=
  ∀ player < profile.players, ∀ mixture, Mixture (profile.table.strategyCount player) mixture →
    ∃ before after, profile.payoff player = .ok before ∧ (profile.replace player mixture).payoff player = .ok after ∧
      after ≤ before

-- What a strategy earns more than the profile.
noncomputable def excess (profile : Mixed ℝ) (player strategy : Nat) : ℝ :=
  profile.mean player [(player, strategy)] - profile.mean player []

theorem gain_eq (profile : Mixed ℝ) (complete : profile.Complete) (player : Nat) (inside : player < profile.players)
    (mixture : List ℝ) (mixes : Mixture (profile.table.strategyCount player) mixture) :
    profile.gain player mixture = .ok (∑ strategy ∈ Finset.range (profile.table.strategyCount player),
      mixture.getD strategy 0 * profile.excess player strategy) := by
  rw [gain, profile.payoff_eq_mean complete player inside,
    profile.replaced_payoff player inside complete mixture mixes.length, ok_bind, ok_bind]
  simp only [excess, mul_sub, Finset.sum_sub_distrib]
  rw [← Finset.sum_mul, Mixture.sum_range _ mixture mixes.length, mixes.total, one_mul]

-- The own mixture gains nothing.
theorem gain_own (profile : Mixed ℝ) (complete : profile.Complete) (player : Nat) (inside : player < profile.players)
    (own : List ℝ) (played : profile.ofPlayer player = .ok own) : profile.gain player own = .ok 0 := by
  rw [gain, profile.replace_own player inside own played, profile.payoff_eq_mean complete player inside, ok_bind,
    ok_bind, sub_self]

theorem gain_alone (profile : Mixed ℝ) (complete : profile.Complete) (player : Nat) (inside : player < profile.players)
    (strategy : Nat) (below : strategy < profile.table.strategyCount player) :
    profile.gain player (Mixture.alone (profile.table.strategyCount player) strategy) =
      .ok (profile.excess player strategy) := by
  rw [profile.gain_eq complete player inside _ (Mixture.alone_mixes _ strategy below), Mixture.alone_average _ strategy below]

/-! The regret. -/

noncomputable def largestExcess (profile : Mixed ℝ) (player : Nat) : ℝ :=
  Arithmetic.largest ((List.range (profile.table.strategyCount player)).map (profile.excess player))

theorem largest_excess_le (profile : Mixed ℝ) (player : Nat) (bound : ℝ) : profile.largestExcess player ≤ bound ↔
    0 ≤ bound ∧ ∀ strategy < profile.table.strategyCount player, profile.excess player strategy ≤ bound := by
  rw [largestExcess, Exact.largest_le_iff, List.forall_mem_map]
  simp only [List.mem_range]

theorem largest_excess_cases (profile : Mixed ℝ) (player : Nat) : profile.largestExcess player = 0 ∨
    ∃ strategy < profile.table.strategyCount player, profile.largestExcess player = profile.excess player strategy := by
  rcases Exact.largest_cases ((List.range (profile.table.strategyCount player)).map (profile.excess player)) with zero | listed
  · exact .inl zero
  · obtain ⟨strategy, below, same⟩ := List.mem_map.mp listed
    exact .inr ⟨strategy, List.mem_range.mp below, same.symm⟩

theorem regret_eq (profile : Mixed ℝ) (complete : profile.Complete) (player : Nat) (inside : player < profile.players) :
    profile.regret player = .ok (profile.largestExcess player) := by
  have values := map_m_eq_map (List.range (profile.table.strategyCount player)) (profile.strategyValue player)
    (fun strategy => profile.mean player [(player, strategy)]) fun strategy listed =>
      profile.strategy_value_eq_mean complete player strategy (List.mem_range.mp listed)
  rw [regret, profile.payoff_eq_mean complete player inside, ok_bind, values, ok_bind, List.map_map]
  rfl

theorem max_regret_eq (profile : Mixed ℝ) (complete : profile.Complete) :
    profile.maxRegret = .ok (Arithmetic.largest ((List.range profile.players).map profile.largestExcess)) := by
  have regrets := map_m_eq_map (List.range profile.players) profile.regret profile.largestExcess fun player listed =>
    profile.regret_eq complete player (List.mem_range.mp listed)
  rw [maxRegret, regrets, ok_bind]

theorem max_regret_bounds (profile : Mixed ℝ) (complete : profile.Complete) :
    ∃ regret, profile.maxRegret = .ok regret ∧ 0 ≤ regret ∧
      (∀ player < profile.players, ∀ strategy < profile.table.strategyCount player, profile.excess player strategy ≤ regret) ∧
      (regret = 0 ∨ ∃ player < profile.players, ∃ strategy < profile.table.strategyCount player,
        regret = profile.excess player strategy) := by
  refine ⟨_, profile.max_regret_eq complete, ?_⟩
  obtain ⟨nonneg, bound⟩ := (Exact.largest_le_iff ((List.range profile.players).map profile.largestExcess) _).mp le_rfl
  refine ⟨nonneg, fun player inside => ?_, ?_⟩
  · have own := bound _ (List.mem_map_of_mem (List.mem_range.mpr inside))
    exact ((profile.largest_excess_le player _).mp own).2
  · rcases Exact.largest_cases ((List.range profile.players).map profile.largestExcess) with zero | listed
    · exact .inl zero
    · obtain ⟨player, inside, same⟩ := List.mem_map.mp listed
      rw [← same]
      rcases profile.largest_excess_cases player with zero | ⟨strategy, below, peak⟩
      · exact .inl zero
      · exact .inr ⟨player, List.mem_range.mp inside, strategy, below, peak⟩

theorem regret_bounds_gains (profile : Mixed ℝ) (complete : profile.Complete) (regret : ℝ)
    (run : profile.maxRegret = .ok regret) : regret ∈ upperBounds profile.gains := by
  obtain ⟨_, sameRun, -, above, -⟩ := profile.max_regret_bounds complete
  cases run.symm.trans sameRun
  rintro gained ⟨player, inside, mixture, mixes, gains⟩
  rw [profile.gain_eq complete player inside mixture mixes] at gains
  cases gains
  exact mixes.average_le _ _ _ _ (above player inside)

theorem regret_gained (profile : Mixed ℝ) (complete : profile.Complete) (mixes : profile.Mixes)
    (some : 0 < profile.players) (regret : ℝ) (run : profile.maxRegret = .ok regret) : regret ∈ profile.gains := by
  obtain ⟨_, sameRun, -, -, found⟩ := profile.max_regret_bounds complete
  cases run.symm.trans sameRun
  rcases found with zero | ⟨player, inside, strategy, below, peak⟩
  · obtain ⟨own, played, mixture⟩ := mixes 0 some
    exact ⟨0, some, own, mixture, zero ▸ profile.gain_own complete 0 some own played⟩
  · exact ⟨player, inside, _, Mixture.alone_mixes _ strategy below,
      peak ▸ profile.gain_alone complete player inside strategy below⟩

theorem regret_of_nobody (profile : Mixed ℝ) (complete : profile.Complete) (nobody : profile.players = 0) :
    profile.maxRegret = .ok 0 := by
  rw [profile.max_regret_eq complete, nobody]
  simp [Arithmetic.largest]

/-! Equilibria. -/

theorem equilibrium_iff (profile : Mixed ℝ) (complete : profile.Complete) :
    profile.IsEquilibrium ↔ ∀ gained ∈ profile.gains, gained ≤ 0 := by
  constructor
  · rintro best gained ⟨player, inside, mixture, mixes, gains⟩
    obtain ⟨before, after, paid, replaced, less⟩ := best player inside mixture mixes
    rw [gain, paid, ok_bind, replaced, ok_bind] at gains
    cases gains
    exact sub_nonpos.mpr less
  · intro none player inside mixture mixes
    have paid := profile.payoff_eq_mean complete player inside
    have replaced := profile.replaced_payoff player inside complete mixture mixes.length
    refine ⟨_, _, paid, replaced, sub_nonpos.mp (none _ ⟨player, inside, mixture, mixes, ?_⟩)⟩
    rw [gain, paid, ok_bind, replaced, ok_bind]

theorem regret_zero_iff (profile : Mixed ℝ) (complete : profile.Complete) (mixes : profile.Mixes) (regret : ℝ)
    (run : profile.maxRegret = .ok regret) (nonneg : 0 ≤ regret) : regret = 0 ↔ profile.IsEquilibrium := by
  rw [profile.equilibrium_iff complete]
  constructor
  · rintro rfl gained listed
    exact profile.regret_bounds_gains complete 0 run listed
  · intro none
    by_cases nobody : profile.players = 0
    · exact Except.ok.inj (run.symm.trans (profile.regret_of_nobody complete nobody))
    · have gained := profile.regret_gained complete mixes (Nat.pos_of_ne_zero nobody) regret run
      exact le_antisymm (none regret gained) nonneg

end Mixed

theorem Game.max_regret_best_gain (game : Game) (reachable : game.Reachable) (vector : List ℝ) (profile : Mixed ℝ)
    (made : Mixed.ofVector (.ofGame game) vector = .ok profile) (mixes : profile.Mixes) :
    (∀ player < game.dimensions.length, ∀ mixture, Mixture (game.strategyCount player) mixture →
      ∃ gained, profile.gain player mixture = .ok gained) ∧
    ∃ regret, profile.maxRegret = .ok regret ∧ 0 ≤ regret ∧ (regret = 0 ↔ profile.IsEquilibrium) ∧
      (game.dimensions = [] → regret = 0) ∧ (game.dimensions ≠ [] → IsGreatest profile.gains regret) := by
  have valid := reachable_well_formed game reachable
  obtain ⟨entries, rfl⟩ := (Mixed.of_vector_ok _ vector profile).mp made
  let profile : Mixed ℝ := ⟨.ofGame game, vector⟩
  have complete : profile.Complete := ⟨PayoffTable.of_game_complete game valid, entries⟩
  obtain ⟨regret, run, nonneg, -⟩ := profile.max_regret_bounds complete
  refine ⟨fun player inside mixture other => ⟨_, profile.gain_eq complete player inside mixture other⟩, regret, run,
    nonneg, profile.regret_zero_iff complete mixes regret run nonneg, ?_, ?_⟩
  · intro empty
    have nobody : profile.players = 0 := congrArg List.length empty
    exact Except.ok.inj (run.symm.trans (profile.regret_of_nobody complete nobody))
  · intro nonempty
    have some : 0 < profile.players := List.length_pos_iff.mpr nonempty
    exact ⟨profile.regret_gained complete mixes some regret run, profile.regret_bounds_gains complete regret run⟩

/-! A profile that is no equilibrium. -/

-- The first player earns 19/4 and could earn 5; the second one earns 1/2 and could earn 1.
theorem Crossing.even_regret (scale : ℝ) (even : Mixed ℝ) (same : even = profile scale (1 / 2) (1 / 2) 0 (1 / 2) (1 / 2))
    (complete : even.Complete) : even.maxRegret = .ok (1 / 2) := by
  have mean (player strategy : Nat) (earned : ℝ) (below : strategy < even.table.strategyCount player)
      (run : even.strategyValue player strategy = .ok earned) : even.mean player [(player, strategy)] = earned :=
    Except.ok.inj ((even.strategy_value_eq_mean complete player strategy below).symm.trans run)
  obtain ⟨zero, one, two⟩ := first_values scale (1 / 2) (1 / 2) 0 (1 / 2) (1 / 2)
  obtain ⟨left, right⟩ := second_values scale (1 / 2) (1 / 2) 0 (1 / 2) (1 / 2)
  rw [← same] at zero one two left right
  have table : even.table = table scale := by rw [same]; rfl
  have players : even.players = 2 := by rw [same]; rfl
  have count : even.table.strategyCount 0 = 3 := by rw [table]; rfl
  have otherCount : even.table.strategyCount 1 = 2 := by rw [table]; rfl
  have zero := mean 0 0 _ (by simp [count]) zero
  have one := mean 0 1 _ (by simp [count]) one
  have two := mean 0 2 _ (by simp [count]) two
  have left := mean 1 0 _ (by simp [otherCount]) left
  have right := mean 1 1 _ (by simp [otherCount]) right
  have first : even.mean 0 [] = 19 / 4 := by
    rw [even.mean_by_strategy 0 (by simp [table, Crossing.table]), count]
    simp only [Finset.sum_range_succ, Finset.sum_range_zero, zero, one, two]
    norm_num [Mixed.share, same, profile, Dimensions.offset, Dimensions.total]
  have second : even.mean 1 [] = 1 / 2 := by
    rw [even.mean_by_strategy 1 (by simp [table, Crossing.table]), otherCount]
    simp only [Finset.sum_range_succ, Finset.sum_range_zero, left, right]
    norm_num [Mixed.share, same, profile, Crossing.table, Dimensions.offset, Dimensions.total]
  have mine : even.largestExcess 0 = 1 / 4 := by
    rw [Mixed.largestExcess, count]
    norm_num [Arithmetic.largest, List.range_succ, Mixed.excess, zero, one, two, first]
  have yours : even.largestExcess 1 = 1 / 2 := by
    rw [Mixed.largestExcess, otherCount]
    norm_num [Arithmetic.largest, List.range_succ, Mixed.excess, left, right, second]
  rw [even.max_regret_eq complete, players]
  norm_num [List.range_succ, Arithmetic.largest, mine, yours]

-- The regret is that of the second player.
theorem Game.max_regret_best_gain_crossing :
    ∃ game, (blank [3, 2]).performAll Crossing.history = .ok game ∧ ∃ profile : Mixed ℝ,
      Mixed.ofVector (.ofGame game) [1 / 2, 1 / 2, 0, 1 / 2, 1 / 2] = .ok profile ∧ profile.Mixes ∧
      IsGreatest profile.gains (1 / 2) ∧ ¬ profile.IsEquilibrium := by
  obtain ⟨game, made, table⟩ := Crossing.made
  have reachable : game.Reachable := ⟨[3, 2], _, _, rfl, made⟩
  have dims : game.dimensions = [3, 2] := congrArg PayoffTable.dims table
  let profile := Crossing.profile game.payoffScale (1 / 2) (1 / 2) 0 (1 / 2) (1 / 2)
  have read : Mixed.ofVector (.ofGame game) [1 / 2, 1 / 2, 0, 1 / 2, 1 / 2] = .ok profile := by
    rw [table]
    rfl
  have whole : (Crossing.table game.payoffScale).Complete :=
    table ▸ PayoffTable.of_game_complete game (reachable_well_formed game reachable)
  have mixes : profile.Mixes := by
    intro player inside
    have below : player < 2 := inside
    interval_cases player
    · exact ⟨[1 / 2, 1 / 2, 0], rfl, rfl, by simp, by norm_num⟩
    · exact ⟨[1 / 2, 1 / 2], rfl, rfl, by simp, by norm_num⟩
  obtain ⟨-, regret, run, -, zero, -, greatest⟩ := max_regret_best_gain game reachable _ profile read mixes
  cases run.symm.trans (Crossing.even_regret _ profile rfl ⟨whole, rfl⟩)
  exact ⟨game, made, profile, read, mixes, greatest (by simp [dims]), mt zero.mpr (by norm_num)⟩

end NormalForm
