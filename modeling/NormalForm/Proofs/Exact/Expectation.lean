import Mathlib.Data.Fintype.BigOperators
import NormalForm.Proofs.Exact.Crossing
import NormalForm.Proofs.Exact.Multilinear
import NormalForm.Proofs.Game.Indexing
import NormalForm.Proofs.Solver.Representation

/-!
Expected payoffs in exact arithmetic are multilinear: sums over the plays of a game, each with the probability that
the players who are not held play it. Such a sum is linear in the probabilities of every player, and its
coefficients are the sums in which that player is held as well.
-/

set_option autoImplicit false

namespace NormalForm

namespace Dimensions

-- A strategy for every player.
abbrev Play (dims : Dimensions) := (player : Fin dims.length) → Fin dims[player]

namespace Play

variable {dims : Dimensions}

def strategies (play : dims.Play) : List Nat := List.ofFn fun player => (play player : Nat)

-- The players who are named play the strategies beside them.
def Keeps (play : dims.Play) (fixed : List (Nat × Nat)) : Prop :=
  ∀ pair ∈ fixed, play.strategies[pair.1]? = some pair.2

instance (play : dims.Play) (fixed : List (Nat × Nat)) : Decidable (play.Keeps fixed) :=
  inferInstanceAs (Decidable (∀ pair ∈ fixed, play.strategies[pair.1]? = some pair.2))

theorem strategies_length (play : dims.Play) : play.strategies.length = dims.length :=
  List.length_ofFn

theorem strategies_at (play : dims.Play) (player : Fin dims.length) :
    play.strategies[(player : Nat)]? = some (play player : Nat) := by
  simp [strategies]

theorem strategies_in_range (play : dims.Play) : dims.InRange play.strategies := by
  refine List.forall₂_iff_get.mpr ⟨play.strategies_length, fun player listed inside => ?_⟩
  simp [strategies]

theorem strategies_injective : Function.Injective (strategies : dims.Play → List Nat) := by
  intro first second same
  funext player
  have alike := first.strategies_at player
  rw [same, second.strategies_at, Option.some.injEq] at alike
  exact Fin.ext alike.symm

theorem exists_of_in_range (strategies : List Nat) (valid : dims.InRange strategies) :
    ∃ play : dims.Play, play.strategies = strategies := by
  obtain ⟨sizes, below⟩ := List.forall₂_iff_get.mp valid
  have listed (player : Fin dims.length) : (player : Nat) < strategies.length := sizes.symm ▸ player.isLt
  refine ⟨fun player => ⟨strategies.get ⟨player, listed player⟩, below player (listed player) player.isLt⟩, ?_⟩
  apply List.ext_getElem
  · rw [strategies_length, sizes]
  · intro player _ _
    simp [Play.strategies]

-- One player more is held.
theorem keeps_append (play : dims.Play) (fixed : List (Nat × Nat)) (other : Fin dims.length) (strategy : Fin dims[other]) :
    play.Keeps (fixed ++ [((other : Nat), (strategy : Nat))]) ↔ play.Keeps fixed ∧ play other = strategy := by
  rw [Keeps, List.forall_mem_append, List.forall_mem_singleton, strategies_at, Option.some.injEq, Fin.val_inj]
  rfl

-- The probability of the play, given what is fixed.
noncomputable def weight (shares : Nat → Nat → ℝ) (fixed : List (Nat × Nat)) (play : dims.Play) : ℝ :=
  ∏ player : Fin dims.length with ↑player ∉ fixed.map Prod.fst, shares player (play player)

theorem weight_append (shares : Nat → Nat → ℝ) (fixed : List (Nat × Nat)) (play : dims.Play) (other : Fin dims.length)
    (strategy : Nat) (free : ↑other ∉ fixed.map Prod.fst) :
    play.weight shares fixed =
      shares other (play other) * play.weight shares (fixed ++ [((other : Nat), strategy)]) := by
  have others : (Finset.univ.filter fun player : Fin dims.length =>
      ↑player ∉ (fixed ++ [((other : Nat), strategy)]).map Prod.fst) =
        (Finset.univ.filter fun player : Fin dims.length => ↑player ∉ fixed.map Prod.fst).erase other := by
    ext player
    simp [Fin.ext_iff, and_comm]
  have listed : other ∈ Finset.univ.filter fun player : Fin dims.length => ↑player ∉ fixed.map Prod.fst :=
    Finset.mem_filter.mpr ⟨Finset.mem_univ other, free⟩
  rw [weight, weight, others]
  exact (Finset.mul_prod_erase _ (fun player : Fin dims.length => shares player (play player)) listed).symm

end Play

theorem vectors_of_plays (dims : Dimensions) (fixed : List (Nat × Nat)) (choices : List (Option Nat))
    (run : fix dims fixed = .ok choices) (distinct : (fixed.map Prod.fst).Nodup) :
    (vectors (dims.zip choices)).toFinset =
      (Finset.univ.filter fun play : dims.Play => play.Keeps fixed).image Play.strategies := by
  have held := fix_ok_held dims fixed choices run
  ext strategies
  rw [List.mem_toFinset, mem_vectors dims choices held, Finset.mem_image]
  constructor
  · rintro ⟨valid, agrees⟩
    obtain ⟨play, rfl⟩ := Play.exists_of_in_range strategies valid
    have keeps := (agrees_iff dims fixed choices run distinct _ play.strategies_length).mp agrees
    exact ⟨play, Finset.mem_filter.mpr ⟨Finset.mem_univ play, keeps⟩, rfl⟩
  · rintro ⟨play, listed, rfl⟩
    have keeps := (Finset.mem_filter.mp listed).2
    exact ⟨play.strategies_in_range,
      (agrees_iff dims fixed choices run distinct _ play.strategies_length).mpr keeps⟩

/-! Multilinear sums. -/

-- The sum over the plays that keep to what is fixed, where the other players play with the probabilities given.
noncomputable def multilinear (dims : Dimensions) (shares : Nat → Nat → ℝ) (earned : dims.Play → ℝ)
    (fixed : List (Nat × Nat)) : ℝ :=
  ∑ play : dims.Play with play.Keeps fixed, play.weight shares fixed * earned play

theorem multilinear_congr (dims : Dimensions) (shares other : Nat → Nat → ℝ) (earned : dims.Play → ℝ)
    (fixed : List (Nat × Nat))
    (alike : ∀ player : Fin dims.length, ↑player ∉ fixed.map Prod.fst → ∀ strategy : Fin dims[player],
      other player strategy = shares player strategy) :
    dims.multilinear other earned fixed = dims.multilinear shares earned fixed := by
  refine Finset.sum_congr rfl fun play _ => congrArg (· * earned play) (Finset.prod_congr rfl fun player free => ?_)
  exact alike player (Finset.mem_filter.mp free).2 (play player)

-- The plays are sorted by what a player plays who is not held.
theorem multilinear_expand (dims : Dimensions) (shares : Nat → Nat → ℝ) (earned : dims.Play → ℝ)
    (fixed : List (Nat × Nat)) (other : Fin dims.length) (free : ↑other ∉ fixed.map Prod.fst) :
    dims.multilinear shares earned fixed =
      ∑ strategy : Fin dims[other],
        shares other strategy * dims.multilinear shares earned (fixed ++ [((other : Nat), (strategy : Nat))]) := by
  rw [multilinear, ← Finset.sum_fiberwise _ fun play : dims.Play => play other]
  refine Finset.sum_congr rfl fun strategy _ => ?_
  have plays : ((Finset.univ.filter fun play : dims.Play => play.Keeps fixed).filter fun play => play other = strategy) =
      Finset.univ.filter fun play : dims.Play => play.Keeps (fixed ++ [((other : Nat), (strategy : Nat))]) := by
    rw [Finset.filter_filter]
    exact Finset.filter_congr fun play _ => (play.keeps_append fixed other strategy).symm
  rw [plays, multilinear, Finset.mul_sum]
  refine Finset.sum_congr rfl fun play listed => ?_
  have own := ((play.keeps_append fixed other strategy).mp (Finset.mem_filter.mp listed).2).2
  rw [play.weight_append shares fixed other strategy free, own, mul_assoc]

end Dimensions

namespace Mixed

/-! What is computed. -/

theorem of_vector_ok (table : PayoffTable ℝ) (vector : List ℝ) (profile : Mixed ℝ) :
    ofVector table vector = .ok profile ↔ vector.length = table.dims.total ∧ profile = ⟨table, vector⟩ := by
  rw [ofVector]
  by_cases entries : vector.length = table.dims.total
  · simp [entries, eq_comm]
  · simp [entries]

theorem weight_eq_prod (shares : Nat → Nat → ℝ) (choices : List (Option Nat)) (strategies : List Nat) (player : Nat)
    (sizes : choices.length = strategies.length) :
    weightFrom shares player choices strategies =
      ∏ place ∈ Finset.range choices.length with choices[place]? = some none,
        shares (player + place) (strategies.getD place 0) := by
  rw [Finset.prod_filter]
  induction choices generalizing player strategies with
  | nil =>
      rw [List.eq_nil_of_length_eq_zero sizes.symm]
      rfl
  | cons choice choices ih =>
      obtain ⟨strategy, rest, rfl⟩ := List.exists_cons_of_length_eq_add_one sizes.symm
      have shift (place : Nat) : player + 1 + place = player + (place + 1) := by omega
      have later := ih rest (player + 1) (Nat.succ.inj sizes)
      simp only [shift] at later
      rw [List.length_cons, Finset.prod_range_succ']
      simp only [List.getElem?_cons_succ, List.getD_cons_succ, ← later]
      cases choice with
      | none => simp [weightFrom, mul_comm]
      | some held => simp [weightFrom]

theorem weight_of_play (dims : Dimensions) (shares : Nat → Nat → ℝ) (fixed : List (Nat × Nat))
    (choices : List (Option Nat)) (run : dims.fix fixed = .ok choices) (play : dims.Play) :
    weightFrom shares 0 choices play.strategies = play.weight shares fixed := by
  have width : choices.length = dims.length := (Dimensions.fix_ok_held _ fixed choices run).length_eq
  rw [weight_eq_prod _ _ _ _ (width.trans play.strategies_length.symm), Dimensions.Play.weight, Finset.prod_filter,
    Finset.prod_filter, width, Finset.prod_range]
  refine Finset.prod_congr rfl fun player _ => ?_
  have own : play.strategies.getD player 0 = play player := by
    rw [List.getD_eq_getElem?_getD, play.strategies_at, Option.getD_some]
  simp only [Dimensions.fix_free _ fixed choices run player player.isLt, own, Nat.zero_add]

-- What a player earns on average where some players are held.
noncomputable def mean (profile : Mixed ℝ) (player : Nat) (fixed : List (Nat × Nat)) : ℝ :=
  profile.table.dims.multilinear profile.share (fun play => profile.table.earned player play.strategies) fixed

theorem conditional_eq_mean (profile : Mixed ℝ) (complete : profile.Complete) (player : Nat) (fixed : List (Nat × Nat))
    (inside : player < profile.table.dims.length)
    (known : ∀ pair ∈ fixed, pair.2 < profile.table.strategyCount pair.1) (distinct : (fixed.map Prod.fst).Nodup) :
    profile.conditional player fixed = .ok (profile.mean player fixed) := by
  obtain ⟨choices, chosen, held⟩ := Dimensions.fix_held profile.table.dims fixed fun pair member =>
    ⟨_, profile.table.strategy_known pair.1 pair.2 (known pair member), known pair member⟩
  have once : (Dimensions.vectors (profile.table.dims.zip choices)).Nodup :=
    (Dimensions.vectors_ascend _ choices held).imp fun less same =>
      Nat.ne_of_lt less (congrArg profile.table.dims.index same)
  rw [conditional_eq, chosen, ok_bind, expected_eq profile complete player choices inside held,
    ← weighted_vectors _ _ _ _ _ held.length_eq, ← List.sum_toFinset _ once,
    Dimensions.vectors_of_plays _ fixed choices chosen distinct,
    Finset.sum_image Dimensions.Play.strategies_injective.injOn, mean, Dimensions.multilinear]
  exact congrArg Except.ok (Finset.sum_congr rfl fun play _ => congrArg (· * _)
    (weight_of_play _ profile.share fixed choices chosen play))

theorem mean_expand (profile : Mixed ℝ) (player : Nat) (fixed : List (Nat × Nat)) (other : Nat)
    (inside : other < profile.table.dims.length) (free : other ∉ fixed.map Prod.fst) :
    profile.mean player fixed =
      ∑ strategy ∈ Finset.range (profile.table.strategyCount other),
        profile.share other strategy * profile.mean player (fixed ++ [(other, strategy)]) := by
  rw [profile.table.strategy_count_at other inside, Finset.sum_range]
  exact profile.table.dims.multilinear_expand profile.share _ fixed ⟨other, inside⟩ free

theorem mean_congr (profile : Mixed ℝ) (probabilities : List ℝ) (player : Nat) (fixed : List (Nat × Nat))
    (alike : ∀ other, other ∉ fixed.map Prod.fst → ∀ strategy < profile.table.strategyCount other,
      share { profile with probabilities } other strategy = profile.share other strategy) :
    mean { profile with probabilities } player fixed = profile.mean player fixed := by
  refine Dimensions.multilinear_congr _ _ _ _ fixed fun other free strategy => alike other free strategy ?_
  rw [profile.table.strategy_count_at other other.isLt]
  exact strategy.isLt

theorem payoff_eq_mean (profile : Mixed ℝ) (complete : profile.Complete) (player : Nat)
    (inside : player < profile.table.dims.length) : profile.payoff player = .ok (profile.mean player []) :=
  profile.conditional_eq_mean complete player [] inside (by simp) (by simp)

theorem strategy_value_eq_mean (profile : Mixed ℝ) (complete : profile.Complete) (player strategy : Nat)
    (below : strategy < profile.table.strategyCount player) :
    profile.strategyValue player strategy = .ok (profile.mean player [(player, strategy)]) := by
  have inside := (List.getElem?_eq_some_iff.mp (profile.table.strategy_known player strategy below)).1
  exact profile.conditional_eq_mean complete player [(player, strategy)] inside (by simp [below]) (by simp)

theorem derivative_eq_mean (profile : Mixed ℝ) (complete : profile.Complete) (player strategy other otherStrategy : Nat)
    (apart : other ≠ player) (below : strategy < profile.table.strategyCount player)
    (otherBelow : otherStrategy < profile.table.strategyCount other) :
    profile.derivative player strategy other otherStrategy =
      .ok (profile.mean player [(player, strategy), (other, otherStrategy)]) := by
  have inside := (List.getElem?_eq_some_iff.mp (profile.table.strategy_known player strategy below)).1
  rw [derivative, if_neg apart]
  exact profile.conditional_eq_mean complete player _ inside (by simp [below, otherBelow]) (by simp [apart.symm])

-- Only what the third players play moves a derivative.
theorem derivative_unmoved (profile : Mixed ℝ) (complete : profile.Complete) (vector : List ℝ)
    (changed : Complete { profile with probabilities := vector }) (player strategy other otherStrategy : Nat)
    (apart : other ≠ player) (below : strategy < profile.table.strategyCount player)
    (otherBelow : otherStrategy < profile.table.strategyCount other)
    (alike : ∀ third, third ≠ player → third ≠ other →
      probability { profile with probabilities := vector } third = profile.probability third) :
    derivative { profile with probabilities := vector } player strategy other otherStrategy =
      profile.derivative player strategy other otherStrategy := by
  have flat := profile.mean_congr vector player [(player, strategy), (other, otherStrategy)]
    fun third free played playedBelow => by
      obtain ⟨notPlayer, notOther⟩ : third ≠ player ∧ third ≠ other := by simpa using free
      have same := congrFun (alike third notPlayer notOther) played
      rw [probability_eq_share _ changed third played playedBelow,
        profile.probability_eq_share complete third played playedBelow] at same
      exact Except.ok.inj same
  rw [derivative_eq_mean _ changed player strategy other otherStrategy apart below otherBelow, flat,
    profile.derivative_eq_mean complete player strategy other otherStrategy apart below otherBelow]

-- The payoff is the average of what the strategies earn.
theorem mean_by_strategy (profile : Mixed ℝ) (player : Nat) (inside : player < profile.table.dims.length) :
    profile.mean player [] = ∑ strategy ∈ Finset.range (profile.table.strategyCount player),
      profile.share player strategy * profile.mean player [(player, strategy)] :=
  profile.mean_expand player [] player inside (by simp)

end Mixed

namespace Game

theorem payoff_at_succeeds (game : Game) (valid : game.WellFormed) (player : Nat) (inside : player < game.dimensions.length)
    (strategies : List Nat) (range : game.dimensions.InRange strategies) :
    ∃ payoff : ℚ, game.payoffAt (game.dimensions.index strategies) player = .ok payoff ∧
      (PayoffTable.ofGame game).earned player strategies = payoff := by
  have complete : (PayoffTable.ofGame game : PayoffTable ℝ).Complete := PayoffTable.of_game_complete game valid
  have dims : (PayoffTable.ofGame game : PayoffTable ℝ).dims = game.dimensions := rfl
  have paid := (PayoffTable.ofGame game).payoff_eq_earned complete player strategies inside range
  rw [PayoffTable.payoff_of_game game valid, dims] at paid
  cases read : game.payoffAt (game.dimensions.index strategies) player with
  | error fault =>
      rw [read] at paid
      cases paid
  | ok payoff =>
      rw [read] at paid
      exact ⟨payoff, rfl, (Except.ok.inj paid).symm⟩

-- What a player earns on average where some strategies are fixed, and how these averages go together.
structure ExpectedPayoffs (game : Game) (profile : Mixed ℝ) (player : Nat) (mean : List (Nat × Nat) → ℝ) : Prop where
  payoff : profile.payoff player = .ok (mean [])
  value : ∀ strategy < game.strategyCount player,
    profile.strategyValue player strategy = .ok (mean [(player, strategy)])
  derivative : ∀ other, other ≠ player → ∀ strategy < game.strategyCount player,
    ∀ otherStrategy < game.strategyCount other, profile.derivative player strategy other otherStrategy =
      .ok (mean [(player, strategy), (other, otherStrategy)])
  overStrategies : mean [] = ∑ strategy ∈ Finset.range (game.strategyCount player),
    profile.share player strategy * mean [(player, strategy)]
  overOpponent : ∀ other < game.dimensions.length, other ≠ player → ∀ strategy < game.strategyCount player,
    mean [(player, strategy)] = ∑ otherStrategy ∈ Finset.range (game.strategyCount other),
      profile.share other otherStrategy * mean [(player, strategy), (other, otherStrategy)]
  unmoved : ∀ other, other ≠ player → ∀ vector changed, Mixed.ofVector (.ofGame game) vector = .ok changed →
    (∀ third, third ≠ player → third ≠ other → changed.probability third = profile.probability third) →
    ∀ strategy < game.strategyCount player, ∀ otherStrategy < game.strategyCount other,
      changed.derivative player strategy other otherStrategy = profile.derivative player strategy other otherStrategy

theorem expected_payoffs_multilinear (game : Game) (reachable : game.Reachable) (vector : List ℝ)
    (entries : vector.length = game.profileLength) :
    ∃ profile, Mixed.ofVector (.ofGame game) vector = .ok profile ∧
      (∀ player, ∀ strategy < game.strategyCount player,
        profile.probability player strategy = .ok (profile.share player strategy)) ∧
      ∀ player < game.dimensions.length, ∃ earned : game.dimensions.Play → ℚ,
        (∀ play, ∃ index, game.flatIndex play.strategies = .ok index ∧ game.payoffAt index player = .ok (earned play)) ∧
        game.ExpectedPayoffs profile player (game.dimensions.multilinear profile.share fun play => earned play) := by
  have valid := reachable_well_formed game reachable
  let profile : Mixed ℝ := { table := .ofGame game, probabilities := vector }
  have complete : profile.Complete := ⟨PayoffTable.of_game_complete game valid, entries⟩
  refine ⟨profile, (Mixed.of_vector_ok _ _ _).mpr ⟨entries, rfl⟩, fun player strategy => profile.probability_eq_share complete player strategy, ?_⟩
  intro player inside
  choose earned paid exactly using fun play : game.dimensions.Play =>
    game.payoff_at_succeeds valid player inside play.strategies play.strategies_in_range
  have averages : (game.dimensions.multilinear profile.share fun play => earned play) = profile.mean player := by
    have same : (fun play : game.dimensions.Play => (earned play : ℝ)) =
        fun play => profile.table.earned player play.strategies := funext fun play => (exactly play).symm
    rw [same]
    rfl
  refine ⟨earned, fun play => ⟨_, game.flat_index_in_range _ play.strategies_in_range, paid play⟩, ?_⟩
  rw [averages]
  refine ⟨profile.payoff_eq_mean complete player inside, profile.strategy_value_eq_mean complete player, ?_,
    profile.mean_by_strategy player inside, ?_, ?_⟩
  · intro other apart strategy below otherStrategy
    exact profile.derivative_eq_mean complete player strategy other otherStrategy apart below
  · intro other otherInside apart strategy _
    exact profile.mean_expand player [(player, strategy)] other otherInside (by simpa using apart)
  · intro other apart vector changed made alike strategy below otherStrategy otherBelow
    obtain ⟨sizes, rfl⟩ := (Mixed.of_vector_ok _ vector changed).mp made
    exact profile.derivative_unmoved complete vector ⟨complete.table, sizes⟩ player strategy other otherStrategy apart
      below otherBelow alike

-- The numbers need not be probabilities.
theorem expected_payoffs_multilinear_crossing :
    ∃ game, (blank [3, 2]).performAll Crossing.history = .ok game ∧ ∃ profile : Mixed ℝ,
      Mixed.ofVector (.ofGame game) [2, -1, 0, 1 / 2, 1 / 2] = .ok profile ∧ profile.payoff 0 = .ok (11 / 2) := by
  obtain ⟨game, made, table⟩ := Crossing.made
  have dims : game.dimensions = [3, 2] := congrArg PayoffTable.dims table
  have length : game.profileLength = 5 := congrArg Dimensions.total dims
  obtain ⟨profile, read, -, averages⟩ :=
    expected_payoffs_multilinear game ⟨[3, 2], _, _, rfl, made⟩ [2, -1, 0, 1 / 2, 1 / 2] length.symm
  refine ⟨game, made, profile, read, ?_⟩
  obtain ⟨earned, -, expected⟩ := averages 0 (by simp [dims])
  generalize (game.dimensions.multilinear profile.share fun play => (earned play : ℝ)) = mean at expected
  have same : profile = Crossing.profile game.payoffScale 2 (-1) 0 (1 / 2) (1 / 2) :=
    ((Mixed.of_vector_ok _ _ _).mp (table ▸ read)).2
  subst same
  have count : game.strategyCount 0 = 3 := by
    rw [strategyCount, dims]
    rfl
  obtain ⟨first, second, third⟩ := Crossing.first_values game.payoffScale 2 (-1) 0 (1 / 2) (1 / 2)
  rw [expected.value _ (by simp [count]), Except.ok.injEq] at first second third
  rw [expected.payoff, expected.overStrategies, count]
  simp only [Finset.sum_range_succ, Finset.sum_range_zero, first, second, third]
  norm_num [Mixed.share, Crossing.profile, Dimensions.offset, Dimensions.total]

end Game

end NormalForm
