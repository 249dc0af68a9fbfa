import NormalForm.Proofs.Game.Refinement

/-!
Every question to a game is answered as its store answers it, and the store is sound: handles are
distinct, every outcome has a payoff of every player, and cells hold live outcomes. Together with the
refinement of histories this fixes what a game is after any sequence of operations.
-/

set_option autoImplicit false

namespace NormalForm.Game

structure Answers (game : Game) (store : Store) : Prop where
  count : game.outcomes.size = store.entries.length
  outcomes : game.outcomes.toList.map (fun outcome => (outcome.id, outcome.entry)) =
    store.entries.zipIdx.map fun (entry, place) => (place + 1, entry)
  outcomeById : ∀ id, game.handleOfId? id = store.handleOfId? id
  outcomeId : ∀ handle, game.outcomeId? handle = store.idOf? handle
  outcome : ∀ handle, (game.outcome? handle).map (fun outcome => (outcome.id, outcome.entry)) =
    store.outcome? handle
  payoff : ∀ handle player, (game.payoff handle player).toOption = store.payoff? handle player
  getOutcome : ∀ strategies, (game.getOutcome strategies).toOption = store.getOutcome? strategies
  profileOutcome : ∀ profile, (game.profileOutcome profile).toOption = store.outcomeAt? profile.index
  outcomeAt : ∀ index, (game.outcomeAt index).toOption = store.outcomeAt? index
  outcomeIdAt : ∀ index, (game.outcomeIdAt index).toOption = store.outcomeIdAt? index
  payoffAt : ∀ index player, (game.payoffAt index player).toOption = store.payoffAt? index player

theorem entry_to_option {α : Type} (entries : List α) (index : Nat) :
    (entry entries index).toOption = entries[index]? := by
  rw [entry]
  cases entries[index]? with
  | none => rfl
  | some value => rfl

theorem outcome_of_cell (game : Game) (valid : game.WellFormed) (index place : Nat)
    (cell : game.cells[index]? = some (some place)) :
    ∃ outcome, game.outcomes[place]? = some outcome ∧ game.denoted index = some outcome.handle := by
  have inside := valid.places index place cell
  refine ⟨game.outcomes[place], Array.getElem?_eq_getElem inside, ?_⟩
  rw [denoted, cell, Option.join_some, Option.bind_some, Array.getElem?_eq_getElem inside, Option.map_some]

theorem place_of_outcome (game : Game) (distinct : game.handles.Nodup) (place : Nat) (outcome : Outcome)
    (known : game.outcomes[place]? = some outcome) : game.place? outcome.handle = some place := by
  cases found : game.place? outcome.handle with
  | none =>
      have listed : outcome ∈ game.outcomes.toList := List.mem_of_getElem? (Array.getElem?_toList ▸ known)
      have missing := List.findIdx?_eq_none_iff.mp found outcome listed
      simp at missing
  | some other =>
      have same := (place_of_handle game distinct _ other place outcome found known).mp rfl
      rw [same]

theorem outcome_of_place (game : Game) (distinct : game.handles.Nodup) (place : Nat) (outcome : Outcome)
    (known : game.outcomes[place]? = some outcome) : game.outcome? outcome.handle = some outcome := by
  rw [outcome?, place_of_outcome game distinct place outcome known]
  exact known

theorem denoted_live (game : Game) (distinct : game.handles.Nodup) (index : Nat) (handle : Handle)
    (denotes : game.denoted index = some handle) : (game.place? handle).isSome := by
  obtain ⟨outcome, found, rfl⟩ := Option.map_eq_some_iff.mp denotes
  obtain ⟨place, -, known⟩ := Option.bind_eq_some_iff.mp found
  rw [place_of_outcome game distinct place outcome known, Option.isSome_some]

theorem outcome_at_denoted (game : Game) (valid : game.WellFormed) (index : Nat)
    (inside : index < game.cells.size) : game.outcomeAt index = .ok (game.denoted index) := by
  have found := Array.getElem?_eq_getElem inside
  cases held : game.cells[index] with
  | none =>
      rw [held] at found
      simp only [outcomeAt, cell, found, ok_bind, denoted]
      rfl
  | some place =>
      rw [held] at found
      obtain ⟨outcome, known, denotes⟩ := outcome_of_cell game valid index place found
      have listed : entry game.outcomes.toList place = .ok outcome :=
        (entry_eq_ok _ _ _).mpr (Array.getElem?_toList ▸ known)
      simp only [outcomeAt, cell, found, ok_bind, listed, denotes]
      rfl

theorem cell_outside (game : Game) (index : Nat) (outside : ¬ index < game.cells.size) :
    game.cell index = .error .bounds := by
  rw [cell, Array.getElem?_eq_none (Nat.le_of_not_lt outside)]

theorem store_outcome_at (game : Game) (valid : game.WellFormed) (index : Nat)
    (inside : index < game.cells.size) : game.store.outcomeAt? index = some (game.denoted index) := by
  have counted : index < game.dimensions.count := valid.cells ▸ inside
  rw [Store.outcomeAt?, if_pos (show index < game.store.dims.count from counted)]
  exact congrArg some (store_cell game index counted)

theorem store_outcome_at_outside (game : Game) (valid : game.WellFormed) (index : Nat)
    (outside : ¬ index < game.cells.size) : game.store.outcomeAt? index = none :=
  if_neg (valid.cells ▸ outside)

theorem answer_outcomes (game : Game) (valid : game.WellFormed) :
    game.outcomes.toList.map (fun outcome => (outcome.id, outcome.entry)) =
      game.store.entries.zipIdx.map fun (entry, place) => (place + 1, entry) := by
  apply List.ext_getElem?
  intro place
  simp only [store, List.getElem?_map, List.getElem?_zipIdx, Array.getElem?_toList]
  cases known : game.outcomes[place]? with
  | none => rfl
  | some outcome =>
      have fits := valid.outcomes place outcome known
      simp [fits.id]

theorem answer_outcome_by_id (game : Game) (id : Nat) : game.handleOfId? id = game.store.handleOfId? id := by
  cases id with
  | zero => rfl
  | succ place =>
      simp only [handleOfId?, Store.handleOfId?, store, List.getElem?_map, Array.getElem?_toList, Option.map_map]
      rfl

theorem answer_outcome (game : Game) (valid : game.WellFormed) (handle : Handle) :
    (game.outcome? handle).map (fun outcome => (outcome.id, outcome.entry)) = game.store.outcome? handle := by
  rw [Store.outcome?, store_id, store_find]
  rw [outcome?, outcomeId?]
  cases found : game.place? handle with
  | none => rfl
  | some place =>
      obtain ⟨outcome, known, -⟩ := place_known game handle place found
      have fits := valid.outcomes place outcome known
      simp [known, fits.id]

theorem answer_payoff (game : Game) (handle : Handle) (player : Nat) :
    (game.payoff handle player).toOption = game.store.payoff? handle player := by
  rw [Store.payoff?, store_find, payoff]
  cases game.outcome? handle with
  | none => rfl
  | some outcome => exact entry_to_option outcome.payoffs player

theorem answer_outcome_at (game : Game) (valid : game.WellFormed) (index : Nat) :
    (game.outcomeAt index).toOption = game.store.outcomeAt? index := by
  by_cases inside : index < game.cells.size
  · rw [outcome_at_denoted game valid index inside, store_outcome_at game valid index inside]
    rfl
  · rw [outcomeAt, cell_outside game index inside, store_outcome_at_outside game valid index inside]
    rfl

theorem answer_get_outcome (game : Game) (valid : game.WellFormed) (strategies : List Nat) :
    (game.getOutcome strategies).toOption = game.store.getOutcome? strategies := by
  rw [getOutcome, flatIndex]
  by_cases range : game.dimensions.InRange strategies
  · have inside : game.dimensions.index strategies < game.cells.size :=
      valid.cells.symm ▸ game.dimensions.index_lt_count strategies range
    rw [game.dimensions.locate_in_range strategies range, ok_bind, outcome_at_denoted game valid _ inside,
      Store.getOutcome?, if_pos (show game.store.dims.InRange strategies from range)]
    exact congrArg some (if_pos range).symm
  · obtain ⟨fault, refused⟩ := game.dimensions.locate_out_of_range strategies range
    rw [refused, Store.getOutcome?, if_neg (show ¬ game.store.dims.InRange strategies from range)]
    rfl

theorem answer_outcome_id_at (game : Game) (valid : game.WellFormed) (distinct : game.handles.Nodup)
    (index : Nat) : (game.outcomeIdAt index).toOption = game.store.outcomeIdAt? index := by
  rw [outcomeIdAt, Store.outcomeIdAt?]
  by_cases inside : index < game.cells.size
  · have found := Array.getElem?_eq_getElem inside
    rw [store_outcome_at game valid index inside]
    cases held : game.cells[index] with
    | none =>
        rw [held] at found
        simp only [cell, found, ok_bind, denoted]
        rfl
    | some place =>
        rw [held] at found
        obtain ⟨outcome, known, denotes⟩ := outcome_of_cell game valid index place found
        simp only [cell, found, ok_bind, denotes, store_id, outcomeId?,
          place_of_outcome game distinct place outcome known]
        rfl
  · rw [cell_outside game index inside, store_outcome_at_outside game valid index inside]
    rfl

theorem answer_payoff_at (game : Game) (valid : game.WellFormed) (distinct : game.handles.Nodup)
    (index player : Nat) : (game.payoffAt index player).toOption = game.store.payoffAt? index player := by
  rw [payoffAt, Store.payoffAt?]
  by_cases inside : index < game.cells.size
  · have found := Array.getElem?_eq_getElem inside
    rw [store_outcome_at game valid index inside]
    cases held : game.cells[index] with
    | none =>
        rw [held] at found
        simp only [cell, found, ok_bind, denoted]
        rfl
    | some place =>
        rw [held] at found
        obtain ⟨outcome, known, denotes⟩ := outcome_of_cell game valid index place found
        have listed : entry game.outcomes.toList place = .ok outcome :=
          (entry_eq_ok _ _ _).mpr (Array.getElem?_toList ▸ known)
        simp only [cell, found, ok_bind, denotes, store_find,
          outcome_of_place game distinct place outcome known, listed]
        exact entry_to_option outcome.payoffs player
  · rw [cell_outside game index inside, store_outcome_at_outside game valid index inside]
    rfl

theorem answers_store (game : Game) (valid : game.WellFormed) (distinct : game.handles.Nodup) :
    game.Answers game.store where
  count := (List.length_map _).symm
  outcomes := answer_outcomes game valid
  outcomeById := answer_outcome_by_id game
  outcomeId := fun handle => (store_id game handle).symm
  outcome := answer_outcome game valid
  payoff := answer_payoff game
  getOutcome := answer_get_outcome game valid
  profileOutcome := fun profile => answer_outcome_at game valid profile.index
  outcomeAt := answer_outcome_at game valid
  outcomeIdAt := answer_outcome_id_at game valid distinct
  payoffAt := answer_payoff_at game valid distinct

theorem store_sound (game : Game) (valid : game.WellFormed) (distinct : game.handles.Nodup) :
    game.store.Sound := by
  refine ⟨handles_of_store game ▸ distinct, ?_, ?_⟩
  · intro entry member
    obtain ⟨outcome, listed, rfl⟩ := List.mem_map.mp member
    obtain ⟨place, inside, found⟩ := List.getElem_of_mem listed
    have known : game.outcomes[place]? = some outcome := by
      rw [← Array.getElem?_toList, List.getElem?_eq_getElem inside, found]
    exact (valid.outcomes place outcome known).payoffs
  · intro strategies handle held
    have range : game.dimensions.InRange strategies := by
      by_contra outside
      exact Option.some_ne_none handle (held.symm.trans (if_neg outside))
    have denotes : game.denoted (game.dimensions.index strategies) = some handle :=
      (if_pos range).symm.trans held
    exact ⟨range, (store_live game handle).trans (denoted_live game distinct _ handle denotes)⟩

/-! Deletion. -/

-- One outcome is gone, its cells are empty, and nothing else denotes another outcome than before.
structure Deletes (game : Game) (handle : Handle) (answer : Bool) (after : Game) : Prop where
  answer : answer = game.store.live handle
  dead : game.store.live handle = false → after = game
  gone : after.outcome? handle = none
  others : ∀ other, other ≠ handle →
    (after.outcome? other).map Outcome.entry = (game.outcome? other).map Outcome.entry
  emptied : ∀ index, game.outcomeAt index = .ok (some handle) → after.outcomeAt index = .ok none
  cells : ∀ index, game.outcomeAt index ≠ .ok (some handle) → after.outcomeAt index = game.outcomeAt index

theorem delete_outcome_at (game : Game) (valid : game.WellFormed) (distinct : game.handles.Nodup)
    (handle : Handle) (place : Nat) (found : game.place? handle = some place) (index : Nat) :
    (game.deleteOutcome handle).2.outcomeAt index =
      if game.outcomeAt index = .ok (some handle) then .ok none else game.outcomeAt index := by
  have after := delete_outcome_well_formed game valid handle
  have size : (game.deleteOutcome handle).2.cells.size = game.cells.size := by
    simp only [deleteOutcome, found, touch, Array.size_map]
  by_cases inside : index < game.cells.size
  · rw [outcome_at_denoted game valid index inside, outcome_at_denoted _ after index (size.symm ▸ inside),
      delete_denoted game valid distinct handle place found index]
    by_cases here : game.denoted index = some handle
    · rw [if_pos here, if_pos (congrArg _ here)]
    · rw [if_neg here, if_neg fun same => here (Except.ok.inj same)]
  · have before : game.outcomeAt index = .error .bounds := by
      rw [outcomeAt, cell_outside game index inside]
      rfl
    rw [before, outcomeAt, cell_outside _ index (size.symm ▸ inside)]
    rfl

theorem delete_outcome_deletes (game : Game) (valid : game.WellFormed) (distinct : game.handles.Nodup)
    (handle : Handle) :
    game.Deletes handle (game.deleteOutcome handle).1 (game.deleteOutcome handle).2 := by
  have live := store_live game handle
  obtain ⟨-, after⟩ := delete_refines game valid distinct handle
  cases found : game.place? handle with
  | none =>
      have kept : game.deleteOutcome handle = (false, game) := by simp only [deleteOutcome, found]
      have gone : game.outcome? handle = none := by simp only [outcome?, found, Option.bind_eq_bind, Option.bind_none]
      have nowhere : ∀ index, game.outcomeAt index ≠ .ok (some handle) := by
        intro index held
        by_cases inside : index < game.cells.size
        · rw [outcome_at_denoted game valid index inside] at held
          have alive := denoted_live game distinct index handle (Except.ok.inj held)
          rw [found] at alive
          cases alive
        · rw [outcomeAt, cell_outside game index inside] at held
          cases held
      rw [kept]
      rw [found] at live
      exact ⟨live.symm, fun _ => rfl, gone, fun _ _ => rfl, fun index held => absurd held (nowhere index),
        fun _ _ => rfl⟩
  | some place =>
      have cells := delete_outcome_at game valid distinct handle place found
      rw [found] at live
      refine ⟨?_, fun dead => ?_, ?_, ?_, ?_, ?_⟩
      · rw [live]
        simp only [deleteOutcome, found, Option.isSome_some]
      · cases dead.symm.trans live
      · have missing : (game.deleteOutcome handle).2.store.find? handle = none := by
          have alive : game.store.live handle = true := live
          rw [after, Store.deleteOutcome, if_pos alive]
          simp [Store.find?]
        rw [store_find] at missing
        exact Option.map_eq_none_iff.mp missing
      · intro other different
        rw [← store_find, ← store_find, after, game.store.delete_find handle other different]
      · intro index held
        rw [cells index, if_pos held]
      · intro index elsewhere
        rw [cells index, if_neg elsewhere]

/-! Whole histories. -/

theorem blank_store (dims : Dimensions) : (blank dims).store = Store.empty dims := by
  have none_denoted : ∀ index, (blank dims).denoted index = none := by
    intro index
    rw [denoted, blank]
    simp only [Array.getElem?_replicate]
    split <;> rfl
  rw [store, Store.empty]
  simp only [none_denoted, blank_dimensions, ite_self]
  rfl

-- The store accepts the same histories and gives the same answers. A profile made for the game names
-- the cell of its strategies.
theorem history_refines_store (dims : Dimensions) (start : Game) (history : List Operation)
    (made : ofDimensions dims = .ok start) (fresh : (created history).Nodup) :
    (start.performAll history).toOption.map store = (Store.empty dims).performAll? history ∧
      ∀ game, start.performAll history = .ok game →
        game.Answers game.store ∧ game.store.Sound ∧
        (∀ handle, game.Deletes handle (game.deleteOutcome handle).1 (game.deleteOutcome handle).2) ∧
        ∀ profile : Profile, profile.Built dims →
          (game.profileOutcome profile).toOption = game.store.getOutcome? profile.strategies ∧
          ∀ outcome, game.store.setOutcomeAt? profile.index outcome =
            game.store.setOutcome? profile.strategies outcome := by
  obtain ⟨counted, rfl⟩ := of_dimensions_ok dims start made
  have valid := blank_well_formed dims counted
  have none_live : (blank dims).handles = [] := rfl
  obtain ⟨refined, distinct⟩ := perform_all_refines (blank dims) valid history
    ⟨none_live ▸ List.nodup_nil, fresh, none_live ▸ List.disjoint_nil_left _⟩
  refine ⟨blank_store dims ▸ refined, fun game run => ?_⟩
  obtain ⟨gameValid, same⟩ := perform_all_well_formed _ game valid history run
  have answers := answers_store game gameValid (distinct game run)
  refine ⟨answers, store_sound game gameValid (distinct game run),
    delete_outcome_deletes game gameValid (distinct game run), fun profile built => ?_⟩
  have dimensions : game.store.dims = dims := same.trans (blank_dimensions dims)
  have ours : profile.Built game.store.dims := dimensions.symm ▸ built
  exact ⟨(answers.profileOutcome profile).trans (game.store.built_outcome profile ours),
    fun outcome => game.store.built_set_outcome profile outcome ours⟩

theorem history_refines_store_duel :
    ∃ game, (blank [2, 2]).performAll
        [.newOutcome ⟨1⟩, .newOutcome ⟨2⟩, .setOutcomeAt 3 (some ⟨2⟩), .deleteOutcome ⟨1⟩] = .ok game ∧
      some game.store = (Store.empty [2, 2]).performAll?
        [.newOutcome ⟨1⟩, .newOutcome ⟨2⟩, .setOutcomeAt 3 (some ⟨2⟩), .deleteOutcome ⟨1⟩] ∧
      game.Answers game.store := by
  obtain ⟨game, run⟩ : ∃ game, (blank [2, 2]).performAll
      [.newOutcome ⟨1⟩, .newOutcome ⟨2⟩, .setOutcomeAt 3 (some ⟨2⟩), .deleteOutcome ⟨1⟩] = .ok game := ⟨_, rfl⟩
  obtain ⟨refined, reached⟩ := history_refines_store [2, 2] (blank [2, 2])
    [.newOutcome ⟨1⟩, .newOutcome ⟨2⟩, .setOutcomeAt 3 (some ⟨2⟩), .deleteOutcome ⟨1⟩] rfl (by decide)
  refine ⟨game, run, ?_, (reached game run).1⟩
  rw [← refined, run]
  rfl

end NormalForm.Game
