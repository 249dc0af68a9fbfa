import NormalForm.Proofs.Mixed.Reading

/-!
Strategies that pay a player alike against everything that the others can do. Over any arithmetic their
expected payoffs are computed from the same numbers in the same order, and so are equal, rounding and
overflow included.
-/

set_option autoImplicit false

namespace NormalForm

variable {α : Type} [Arithmetic α]

-- The strategies pay the player alike, whatever the others play.
def PayoffTable.Duplicates (table : PayoffTable α) (player first second : Nat) : Prop :=
  ∀ strategies, table.dims.InRange strategies →
    table.payoff (table.dims.index (strategies.set player first)) player =
      table.payoff (table.dims.index (strategies.set player second)) player

namespace Dimensions

theorem zip_set (dims : Dimensions) (choices : List (Option Nat)) (player d : Nat) (choice : Option Nat)
    (known : dims[player]? = some d) :
    dims.zip (choices.set player choice) = (dims.zip choices).set player (d, choice) := by
  apply List.ext_getElem?
  intro place
  grind

theorem vectors_set (pairs : List (Nat × Option Nat)) (player d first second : Nat)
    (known : pairs[player]? = some (d, some first)) :
    vectors (pairs.set player (d, some second)) =
      (vectors pairs).map fun strategies => strategies.set player second := by
  induction pairs generalizing player with
  | nil => cases known
  | cons pair rest ih =>
      obtain ⟨c, choice⟩ := pair
      cases player with
      | zero =>
          cases known
          simp only [List.set_cons_zero, vectors, List.map_flatMap, List.map_cons, List.map_nil]
      | succ player =>
          simp only [List.set_cons_succ, vectors, ih player known, List.flatMap_map, List.map_flatMap, List.map_map]
          rfl

theorem vector_holds (pairs : List (Nat × Option Nat)) (player d strategy : Nat)
    (known : pairs[player]? = some (d, some strategy)) (strategies : List Nat)
    (listed : strategies ∈ vectors pairs) : strategies[player]? = some strategy := by
  induction pairs generalizing player strategies with
  | nil => cases known
  | cons pair rest ih =>
      obtain ⟨c, choice⟩ := pair
      simp only [vectors, List.mem_flatMap, List.mem_map] at listed
      obtain ⟨tail, inRest, head, played, rfl⟩ := listed
      cases player with
      | zero =>
          cases known
          rw [List.mem_singleton.mp played, List.getElem?_cons_zero]
      | succ player => exact ih player known tail inRest

end Dimensions

namespace Mixed

-- What a player held fixed plays is no factor of the weight.
omit [Arithmetic α] in
theorem free_factors_set (profile : Mixed α) (player first second : Nat) (choices : List (Option Nat))
    (known : choices[player]? = some (some first)) (strategies : List Nat) (place : Nat) :
    profile.freeFactors place (choices.set player (some second)) (strategies.set player second) =
      profile.freeFactors place choices strategies := by
  induction choices generalizing player strategies place with
  | nil => cases known
  | cons choice rest ih =>
      cases strategies with
      | nil =>
          cases player with
          | zero =>
              cases known
              rfl
          | succ player => cases choice <;> rfl
      | cons strategy others =>
          cases player with
          | zero =>
              cases known
              rfl
          | succ player =>
              have later := ih player known others (place + 1)
              cases choice with
              | none => simp only [List.set_cons_succ, freeFactors, later]
              | some held => simpa only [List.set_cons_succ, freeFactors] using later

theorem term_set (profile : Mixed α) (player first second : Nat) (choices : List (Option Nat))
    (known : choices[player]? = some (some first)) (strategies : List Nat)
    (alike : profile.table.payoff (profile.table.dims.index (strategies.set player second)) player =
      profile.table.payoff (profile.table.dims.index strategies) player) :
    profile.term player (choices.set player (some second)) (strategies.set player second) =
      profile.term player choices strategies := by
  simp only [term, weight, free_factors_set profile player first second choices known, alike]

theorem strategy_value_expected (profile : Mixed α) (player strategy : Nat)
    (below : strategy < profile.table.strategyCount player) :
    profile.strategyValue player strategy =
      profile.expected player ((profile.table.dims.map fun _ => none).set player (some strategy)) := by
  have known := profile.table.strategy_known player strategy below
  have fixed : profile.table.dims.fix [(player, strategy)] =
      .ok ((profile.table.dims.map fun _ => none).set player (some strategy)) := by
    simp only [Dimensions.fix, List.foldlM_cons, List.foldlM_nil, Dimensions.fixOne, (entry_eq_ok _ _ _).mpr known,
      ok_bind, if_pos below]
    rfl
  rw [strategyValue, conditional_eq, fixed, ok_bind]

-- Both values are the same sum, term by term.
theorem strategy_value_duplicates (profile : Mixed α) (player first second : Nat)
    (firstBelow : first < profile.table.strategyCount player)
    (secondBelow : second < profile.table.strategyCount player)
    (duplicates : profile.table.Duplicates player first second) :
    profile.strategyValue player second = profile.strategyValue player first := by
  have known := profile.table.strategy_known player first firstBelow
  have inside : player < profile.table.dims.length := (List.getElem?_eq_some_iff.mp known).1
  rw [strategy_value_expected profile player first firstBelow, strategy_value_expected profile player second secondBelow]
  generalize same : (profile.table.dims.map fun _ => none).set player (some first) = choices
  have chosen : choices[player]? = some (some first) := by simp [← same, inside]
  have other : (profile.table.dims.map fun _ => none).set player (some second) = choices.set player (some second) := by
    rw [← same, List.set_set]
  have held : Dimensions.Held profile.table.dims choices :=
    same ▸ Dimensions.held_set _ _ player first _ (Dimensions.held_none _) known firstBelow
  have pairs : (profile.table.dims.zip choices)[player]? = some (profile.table.strategyCount player, some first) := by
    rw [List.getElem?_zip_eq_some]
    exact ⟨known, chosen⟩
  rw [other, expected, expected, pureVectors, pureVectors, Dimensions.zip_set _ _ player _ _ known,
    Dimensions.vectors_set _ _ _ first second pairs, List.mapM_map]
  refine congrArg (· >>= _) (map_m_congr _ _ _ fun strategies listed => ?_)
  have valid := Dimensions.vectors_in_range _ choices held strategies listed
  obtain ⟨bound, played⟩ := List.getElem?_eq_some_iff.mp (Dimensions.vector_holds _ player _ first pairs strategies listed)
  have kept : strategies.set player first = strategies := by rw [← played, List.set_getElem_self]
  have alike := duplicates strategies valid
  rw [kept] at alike
  exact term_set profile player first second choices chosen strategies alike.symm

end Mixed

end NormalForm
