import Mathlib.Algebra.BigOperators.Ring.List
import NormalForm.Proofs.Exact.Mass
import NormalForm.Proofs.Mixed.Duplicates

/-!
Expected payoffs in exact arithmetic. They average over one player after the other, and so are affine in every
probability: the slope is the expectation in which that player is held at that strategy.
-/

set_option autoImplicit false

namespace NormalForm

-- What a player earns where the strategies are played, read without a check.
noncomputable def PayoffTable.earned (table : PayoffTable ℝ) (player : Nat) (strategies : List Nat) : ℝ :=
  (table.payoff (table.dims.index strategies) player).toOption.getD 0

theorem PayoffTable.payoff_eq_earned (table : PayoffTable ℝ) (complete : table.Complete) (player : Nat)
    (strategies : List Nat) (inside : player < table.dims.length) (valid : table.dims.InRange strategies) :
    table.payoff (table.dims.index strategies) player = .ok (table.earned player strategies) := by
  obtain ⟨value, paid⟩ := table.payoff_succeeds complete _ player (Dimensions.index_lt_count _ strategies valid) inside
  rw [earned, paid]
  rfl

namespace Mixed

/-! Averages over the players who are not held. -/

-- The probability that the players from `player` on play the strategies, apart from those who are held.
def weightFrom (shares : Nat → Nat → ℝ) : Nat → List (Option Nat) → List Nat → ℝ
  | player, none :: choices, strategy :: strategies =>
      shares player strategy * weightFrom shares (player + 1) choices strategies
  | player, some _ :: choices, _ :: strategies => weightFrom shares (player + 1) choices strategies
  | _, _, _ => 1

-- The average payoff over what the players from `player` on play.
def averageFrom (shares : Nat → Nat → ℝ) : Nat → List (Nat × Option Nat) → (List Nat → ℝ) → ℝ
  | _, [], earned => earned []
  | player, (_, some held) :: rest, earned => averageFrom shares (player + 1) rest fun tail => earned (held :: tail)
  | player, (d, none) :: rest, earned => averageFrom shares (player + 1) rest fun tail =>
      ∑ strategy ∈ Finset.range d, shares player strategy * earned (strategy :: tail)

theorem average_affine (shares : Nat → Nat → ℝ) (h : ℝ) (slots : List (Nat × Option Nat)) (player : Nat)
    (f g : List Nat → ℝ) :
    averageFrom shares player slots (fun strategies => f strategies + h * g strategies) =
      averageFrom shares player slots f + h * averageFrom shares player slots g := by
  induction slots generalizing player f g with
  | nil => rfl
  | cons slot rest ih =>
      obtain ⟨d, choice⟩ := slot
      cases choice with
      | some held => exact ih (player + 1) _ _
      | none =>
          rw [averageFrom, averageFrom, averageFrom, ← ih]
          refine congrArg _ (funext fun tail => ?_)
          rw [Finset.mul_sum, ← Finset.sum_add_distrib]
          exact Finset.sum_congr rfl fun strategy _ => by ring

-- The induction is on the players; `place` counts them from `player` on.
theorem average_congr (shares other : Nat → Nat → ℝ) (slots : List (Nat × Option Nat)) (player : Nat)
    (earned : List Nat → ℝ)
    (alike : ∀ place d, slots[place]? = some (d, none) → ∀ strategy < d,
      other (player + place) strategy = shares (player + place) strategy) :
    averageFrom other player slots earned = averageFrom shares player slots earned := by
  induction slots generalizing player earned with
  | nil => rfl
  | cons slot rest ih =>
      obtain ⟨d, choice⟩ := slot
      have later (payoff : List Nat → ℝ) := ih (player + 1) payoff fun place d known strategy below => by
        rw [Nat.add_right_comm, Nat.add_assoc]
        exact alike (place + 1) d known strategy below
      cases choice with
      | some held => exact later _
      | none =>
          rw [averageFrom, averageFrom, later]
          refine congrArg _ (funext fun tail => Finset.sum_congr rfl fun strategy listed => ?_)
          have same : other player strategy = shares player strategy :=
            alike 0 d rfl strategy (Finset.mem_range.mp listed)
          rw [same]

-- One probability more by `h`.
def nudge (shares : Nat → Nat → ℝ) (other strategy : Nat) (h : ℝ) (player played : Nat) : ℝ :=
  shares player played + if player = other ∧ played = strategy then h else 0

theorem nudge_other (shares : Nat → Nat → ℝ) (other strategy : Nat) (h : ℝ) (player played : Nat)
    (differ : player ≠ other) : nudge shares other strategy h player played = shares player played := by
  rw [nudge, if_neg (mt And.left differ), add_zero]

theorem sum_nudge (shares : Nat → Nat → ℝ) (player strategy d : Nat) (h : ℝ) (terms : Nat → ℝ) (below : strategy < d) :
    ∑ played ∈ Finset.range d, nudge shares player strategy h player played * terms played =
      ∑ played ∈ Finset.range d, shares player played * terms played + h * terms strategy := by
  have each : ∀ played ∈ Finset.range d, nudge shares player strategy h player played * terms played =
      shares player played * terms played + if played = strategy then h * terms played else 0 := by
    intro played _
    rw [nudge, add_mul, ite_mul, zero_mul]
    simp only [true_and]
  rw [Finset.sum_congr rfl each, Finset.sum_add_distrib, Finset.sum_ite_eq', if_pos (Finset.mem_range.mpr below)]

-- The induction is on the players before the one whose probability changes, who is `place` after `player`.
theorem average_nudge (shares : Nat → Nat → ℝ) (h : ℝ) (slots : List (Nat × Option Nat)) (player place strategy d : Nat)
    (earned : List Nat → ℝ) (free : slots[place]? = some (d, none)) (below : strategy < d) :
    averageFrom (nudge shares (player + place) strategy h) player slots earned =
      averageFrom shares player slots earned +
        h * averageFrom shares player (slots.set place (d, some strategy)) earned := by
  induction slots generalizing player place earned with
  | nil => cases free
  | cons slot rest ih =>
      cases place with
      | zero =>
          cases free
          have others (payoff : List Nat → ℝ) :
              averageFrom (nudge shares player strategy h) (player + 1) rest payoff =
                averageFrom shares (player + 1) rest payoff :=
            average_congr shares _ rest (player + 1) payoff fun place _ _ played _ =>
              nudge_other shares player strategy h _ played (by omega)
          rw [Nat.add_zero, List.set_cons_zero, averageFrom, averageFrom, averageFrom, others, ← average_affine]
          exact congrArg _ (funext fun tail => sum_nudge shares player strategy d h _ below)
      | succ place =>
          obtain ⟨c, choice⟩ := slot
          have later (payoff : List Nat → ℝ) := ih (player + 1) place payoff free
          rw [Nat.add_right_comm, Nat.add_assoc] at later
          cases choice with
          | some held => exact later _
          | none =>
              have own (played : Nat) := nudge_other shares (player + (place + 1)) strategy h player played (by omega)
              rw [List.set_cons_succ, averageFrom, averageFrom, averageFrom, later]
              simp only [own]

/-! The averages that are computed. -/

theorem free_factors_prod (profile : Mixed ℝ) (player : Nat) (choices : List (Option Nat)) (strategies : List Nat)
    (factors : List ℝ) (run : profile.freeFactors player choices strategies = .ok factors) :
    factors.prod = weightFrom profile.share player choices strategies := by
  induction player, choices, strategies using weightFrom.induct generalizing factors with
  | case1 player choices strategy strategies ih =>
      obtain ⟨factor, here, run⟩ := bind_eq_ok.mp run
      obtain ⟨others, later, run⟩ := bind_eq_ok.mp run
      cases run
      rw [List.prod_cons, ih others later, weightFrom, share_of_probability profile player strategy factor here]
  | case2 player held choices strategy strategies ih => exact ih factors run
  | case3 player choices strategies notFree notHeld =>
      rw [freeFactors.eq_3 profile _ _ _ notFree notHeld] at run
      cases run
      rw [List.prod_nil, weightFrom.eq_3 _ _ _ _ notFree notHeld]

theorem weighted_vectors (shares : Nat → Nat → ℝ) (dims : Dimensions) (choices : List (Option Nat)) (player : Nat)
    (earned : List Nat → ℝ) (sizes : choices.length = dims.length) :
    ((Dimensions.vectors (dims.zip choices)).map fun strategies =>
        weightFrom shares player choices strategies * earned strategies).sum =
      averageFrom shares player (dims.zip choices) earned := by
  induction dims generalizing choices player earned with
  | nil =>
      have empty : choices = [] := List.eq_nil_of_length_eq_zero sizes
      simp [empty, Dimensions.vectors, weightFrom, averageFrom]
  | cons d dims ih =>
      obtain ⟨choice, rest, rfl⟩ := List.exists_cons_of_length_eq_add_one sizes
      have later (payoff : List Nat → ℝ) := ih rest (player + 1) payoff (Nat.succ.inj sizes)
      have parted (heads : List Nat) (term : List Nat → ℝ) (tails : List (List Nat)) :
          ((tails.flatMap fun tail => heads.map fun head => head :: tail).map term).sum =
            (tails.map fun tail => (heads.map fun head => term (head :: tail)).sum).sum := by
        simp only [List.flatMap_def, List.map_flatten, List.sum_flatten, List.map_map, Function.comp_def]
      rw [List.zip_cons_cons]
      cases choice with
      | some held =>
          rw [averageFrom, ← later, Dimensions.vectors, parted]
          simp only [List.map_cons, List.map_nil, List.sum_singleton, weightFrom]
      | none =>
          rw [averageFrom, ← later, Dimensions.vectors, parted]
          refine congrArg List.sum (List.map_congr_left fun tail _ => ?_)
          rw [Exact.sum_of_range, Finset.mul_sum]
          refine Finset.sum_congr rfl fun strategy _ => ?_
          rw [weightFrom, mul_comm (shares player strategy), mul_assoc]

-- In exact arithmetic a vector of weight zero needs no care.
theorem term_eq (profile : Mixed ℝ) (player : Nat) (choices : List (Option Nat)) (strategies : List Nat)
    (factors : List ℝ) (payoff : ℝ) (free : profile.freeFactors 0 choices strategies = .ok factors)
    (paid : profile.table.payoff (profile.table.dims.index strategies) player = .ok payoff) :
    profile.term player choices strategies = .ok (factors.prod * payoff) := by
  rw [term, weight, free, ok_bind, ok_bind, Exact.product_eq, Exact.same_eq, Exact.zero_eq]
  by_cases zero : factors.prod = 0
  · rw [zero, decide_eq_true rfl, if_pos rfl, zero_mul]
  · rw [decide_eq_false zero, if_neg Bool.false_ne_true, paid, ok_bind]

theorem expected_eq (profile : Mixed ℝ) (complete : profile.Complete) (player : Nat) (choices : List (Option Nat))
    (inside : player < profile.table.dims.length) (held : Dimensions.Held profile.table.dims choices) :
    profile.expected player choices = .ok
      (averageFrom profile.share 0 (profile.table.dims.zip choices) (profile.table.earned player)) := by
  have each : ∀ strategies ∈ profile.pureVectors choices, profile.term player choices strategies =
      .ok (weightFrom profile.share 0 choices strategies * profile.table.earned player strategies) := by
    intro strategies listed
    have valid := Dimensions.vectors_in_range _ choices held strategies listed
    obtain ⟨factors, free⟩ := free_factors_succeed profile 0 choices strategies complete.length valid
    rw [← free_factors_prod profile 0 choices strategies factors free]
    exact term_eq profile player choices strategies factors _ free
      (profile.table.payoff_eq_earned complete.table player strategies inside valid)
  rw [expected, map_m_eq_map _ _ _ each, ok_bind, Exact.sum_eq, pureVectors, weighted_vectors _ _ _ _ _ held.length_eq]

theorem derivative_expected (profile : Mixed ℝ) (player strategy other otherStrategy : Nat) (apart : other ≠ player)
    (below : strategy < profile.table.strategyCount player)
    (otherBelow : otherStrategy < profile.table.strategyCount other) :
    profile.derivative player strategy other otherStrategy =
      profile.expected player
        (((profile.table.dims.map fun _ => none).set player (some strategy)).set other (some otherStrategy)) := by
  have known := profile.table.strategy_known player strategy below
  have otherKnown := profile.table.strategy_known other otherStrategy otherBelow
  have fixed : profile.table.dims.fix [(player, strategy), (other, otherStrategy)] =
      .ok (((profile.table.dims.map fun _ => none).set player (some strategy)).set other (some otherStrategy)) := by
    simp only [Dimensions.fix, List.foldlM_cons, List.foldlM_nil, Dimensions.fixOne, (entry_eq_ok _ _ _).mpr known,
      (entry_eq_ok _ _ _).mpr otherKnown, ok_bind, if_pos below, if_pos otherBelow]
    rfl
  rw [derivative, if_neg apart, conditional_eq, fixed, ok_bind]

/-! Profiles with one probability changed. -/

-- The profile with `h` added to the probability in a column.
noncomputable def nudged (profile : Mixed ℝ) (column : Nat) (h : ℝ) : Mixed ℝ :=
  { profile with probabilities := profile.probabilities.modify column (· + h) }

theorem nudged_complete (profile : Mixed ℝ) (complete : profile.Complete) (column : Nat) (h : ℝ) :
    (profile.nudged column h).Complete :=
  ⟨complete.table, (List.length_modify ..).trans complete.length⟩

theorem nudged_share (profile : Mixed ℝ) (column : Nat) (h : ℝ) (inside : column < profile.probabilities.length)
    (player strategy : Nat) : (profile.nudged column h).share player strategy =
      profile.share player strategy + if profile.table.dims.offset player + strategy = column then h else 0 := by
  rw [share, share, nudged, List.getD_eq_getElem?_getD, List.getD_eq_getElem?_getD, List.getElem?_modify]
  by_cases here : profile.table.dims.offset player + strategy = column
  · rw [if_pos here, here, List.getElem?_eq_getElem inside]
    simp
  · simp [here, Ne.symm here]

theorem nudged_expected (profile : Mixed ℝ) (complete : profile.Complete) (player : Nat) (choices : List (Option Nat))
    (inside : player < profile.table.dims.length) (held : Dimensions.Held profile.table.dims choices)
    (other strategy : Nat) (h : ℝ) (below : strategy < profile.table.strategyCount other) :
    (profile.nudged (profile.table.dims.offset other + strategy) h).expected player choices = .ok
      (averageFrom (nudge profile.share other strategy h) 0 (profile.table.dims.zip choices)
        (profile.table.earned player)) := by
  have known := profile.table.strategy_known other strategy below
  have place := Dimensions.offset_lt_total _ other strategy _ known below
  rw [expected_eq _ (profile.nudged_complete complete _ h) player choices inside held]
  refine congrArg Except.ok (average_congr _ _ _ 0 _ fun player d slot played playedBelow => ?_)
  rw [List.getElem?_zip_eq_some] at slot
  rw [nudged_share profile _ h (complete.length.symm ▸ place), nudge, Nat.zero_add]
  simp only [Dimensions.place_unique profile.table.dims player played d other strategy _ slot.1 playedBelow known below]

-- What a strategy earns changes with a probability at the rate that is the derivative.
theorem strategy_value_nudged (profile : Mixed ℝ) (complete : profile.Complete)
    (player strategy other otherStrategy : Nat) (h : ℝ) (below : strategy < profile.table.strategyCount player)
    (otherBelow : otherStrategy < profile.table.strategyCount other) :
    ∃ value rate, profile.strategyValue player strategy = .ok value ∧
      profile.derivative player strategy other otherStrategy = .ok rate ∧
      (profile.nudged (profile.table.dims.offset other + otherStrategy) h).strategyValue player strategy =
        .ok (value + h * rate) := by
  have known := profile.table.strategy_known player strategy below
  have otherKnown := profile.table.strategy_known other otherStrategy otherBelow
  have inside : player < profile.table.dims.length := (List.getElem?_eq_some_iff.mp known).1
  let choices := (profile.table.dims.map fun _ => none).set player (some strategy)
  have held : Dimensions.Held profile.table.dims choices :=
    Dimensions.held_set _ _ player strategy _ (Dimensions.held_none _) known below
  have value := (strategy_value_expected profile player strategy below).trans
    (expected_eq profile complete player choices inside held)
  have moved := (strategy_value_expected (profile.nudged _ h) player strategy below).trans
    (nudged_expected profile complete player choices inside held other otherStrategy h otherBelow)
  by_cases own : other = player
  · refine ⟨_, 0, value, by rw [derivative, if_pos own, Exact.zero_eq], ?_⟩
    rw [moved, mul_zero, add_zero]
    refine congrArg Except.ok (average_congr _ _ _ 0 _ fun place d slot played _ => ?_)
    refine nudge_other _ _ _ h _ played fun same => ?_
    rw [List.getElem?_zip_eq_some, ← Nat.zero_add place, same, own] at slot
    simp [choices, inside] at slot
  · have free : (profile.table.dims.zip choices)[other]? = some (profile.table.strategyCount other, none) := by
      rw [List.getElem?_zip_eq_some]
      refine ⟨otherKnown, ?_⟩
      simp [choices, Ne.symm own, (List.getElem?_eq_some_iff.mp otherKnown).1]
    have bothHeld := Dimensions.held_set _ choices other otherStrategy _ held otherKnown otherBelow
    have slope := (derivative_expected profile player strategy other otherStrategy own below otherBelow).trans
      (expected_eq profile complete player _ inside bothHeld)
    rw [Dimensions.zip_set _ choices other _ _ otherKnown] at slope
    have affine := average_nudge profile.share h _ 0 other otherStrategy _ (profile.table.earned player) free otherBelow
    rw [Nat.zero_add] at affine
    exact ⟨_, _, value, slope, moved.trans (congrArg Except.ok affine)⟩

end Mixed

end NormalForm
