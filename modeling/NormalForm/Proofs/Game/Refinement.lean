import Mathlib.Data.List.Nodup
import NormalForm.Proofs.Game.Store

/-!
A game refines its store: over every history of operations, places and ids stay consistent, so that
the game accepts what the store accepts and answers every question as the store does. Handles of new
outcomes come from a counter; a history creates no handle twice.
-/

set_option autoImplicit false

namespace NormalForm

def Outcome.entry (outcome : Outcome) : Store.Entry := ⟨outcome.handle, outcome.label, outcome.payoffs⟩

/-! Lists in which every handle stands at one place. -/

section Distinct

variable {β : Type} (key : β → Handle) (handle : Handle)

theorem absent_of_not_mem (items : List β) (absent : handle ∉ items.map key) :
    ∀ item ∈ items, (key item == handle) = false := by
  intro item member
  simp only [beq_eq_false_iff_ne]
  exact fun same => absent (same ▸ List.mem_map_of_mem member)

theorem erase_found (items : List β) (place : Nat) (distinct : (items.map key).Nodup)
    (found : items.findIdx? (fun item => key item == handle) = some place) :
    items.eraseIdx place = items.filter fun item => key item != handle := by
  induction items generalizing place with
  | nil => cases found
  | cons first rest ih =>
      rw [List.map_cons, List.nodup_cons] at distinct
      rw [List.findIdx?_cons] at found
      by_cases here : key first == handle
      · rw [if_pos here, Option.some.injEq] at found
        have absent := absent_of_not_mem key handle rest (eq_of_beq here ▸ distinct.1)
        have kept : rest.filter (fun item => key item != handle) = rest :=
          List.filter_eq_self.mpr fun item member => by simp [bne, absent item member]
        rw [← found, List.eraseIdx_cons_zero, List.filter_cons_of_neg (by simp [bne, here]), kept]
      · rw [if_neg here, Option.map_eq_some_iff] at found
        obtain ⟨later, known, rfl⟩ := found
        rw [List.eraseIdx_cons_succ, ih later distinct.2 known,
          List.filter_cons_of_pos (by simp [bne, here])]

theorem modify_found (items : List β) (place : Nat) (change : β → β) (distinct : (items.map key).Nodup)
    (found : items.findIdx? (fun item => key item == handle) = some place) :
    items.modify place change = items.map fun item => if key item == handle then change item else item := by
  induction items generalizing place with
  | nil => cases found
  | cons first rest ih =>
      rw [List.map_cons, List.nodup_cons] at distinct
      rw [List.findIdx?_cons] at found
      by_cases here : key first == handle
      · rw [if_pos here, Option.some.injEq] at found
        have absent := absent_of_not_mem key handle rest (eq_of_beq here ▸ distinct.1)
        have kept : rest.map (fun item => if key item == handle then change item else item) = rest :=
          (List.map_congr_left fun item member => by simp [absent item member]).trans (List.map_id' rest)
        rw [← found, List.modify_zero_cons, List.map_cons, if_pos here, kept]
      · rw [if_neg here, Option.map_eq_some_iff] at found
        obtain ⟨later, known, rfl⟩ := found
        rw [List.modify_succ_cons, ih later distinct.2 known, List.map_cons, if_neg here]

end Distinct

namespace Game

def handles (game : Game) : List Handle := game.outcomes.toList.map Outcome.handle

-- The outcome that the cell at an index points at.
def denoted (game : Game) (index : Nat) : Option Handle :=
  (game.cells[index]?.join.bind fun place => game.outcomes[place]?).map Outcome.handle

def store (game : Game) : Store :=
  { dims := game.dimensions
    entries := game.outcomes.toList.map Outcome.entry
    cells := fun strategies =>
      if game.dimensions.InRange strategies then game.denoted (game.dimensions.index strategies) else none }

theorem store_find (game : Game) (handle : Handle) :
    game.store.find? handle = (game.outcome? handle).map Outcome.entry := by
  rw [outcome?, place?, Store.find?, store]
  rw [List.find?_map, List.find?_eq_bind_findIdx?_getElem?]
  simp only [← Array.getElem?_toList]
  rfl

theorem store_id (game : Game) (handle : Handle) : game.store.idOf? handle = game.outcomeId? handle := by
  rw [Store.idOf?, store, outcomeId?, place?]
  rw [List.findIdx?_map]
  rfl

theorem store_live (game : Game) (handle : Handle) : game.store.live handle = (game.place? handle).isSome := by
  rw [Store.live, store, place?]
  rw [List.any_map, List.findIdx?_isSome]
  rfl

-- The cell at an index, by its vector.
theorem store_cell (game : Game) (index : Nat) (inside : index < game.dimensions.count) :
    game.store.cells (game.dimensions.vectorAt index) = game.denoted index := by
  have valid := game.dimensions.vector_at_in_range index inside
  simp only [store, if_pos valid, game.dimensions.index_vector_at index inside]

theorem place_of_handle (game : Game) (distinct : game.handles.Nodup) (handle : Handle) (place other : Nat)
    (outcome : Outcome) (found : game.place? handle = some place)
    (known : game.outcomes[other]? = some outcome) : outcome.handle = handle ↔ other = place := by
  obtain ⟨named, here, same⟩ := place_known game handle place found
  constructor
  · intro equal
    have left : game.handles[other]? = some handle := by
      rw [handles, List.getElem?_map, Array.getElem?_toList, known, Option.map_some, equal]
    have right : game.handles[place]? = some handle := by
      rw [handles, List.getElem?_map, Array.getElem?_toList, here, Option.map_some, same]
    have inside := (List.getElem?_eq_some_iff.mp left).1
    exact (List.getElem?_inj inside distinct).mp (left.trans right.symm)
  · rintro rfl
    cases here.symm.trans known
    exact same

/-! Each operation does to the game what it does to the store. -/

theorem renumber_entries (outcomes : Array Outcome) :
    (renumber outcomes).toList.map Outcome.entry = outcomes.toList.map Outcome.entry := by
  apply List.ext_getElem?
  intro place
  simp only [renumber, List.getElem?_map, Array.getElem?_toList, Array.getElem?_mapIdx, Option.map_map]
  rfl

theorem delete_denoted (game : Game) (valid : game.WellFormed) (distinct : game.handles.Nodup)
    (handle : Handle) (place : Nat) (found : game.place? handle = some place) (index : Nat) :
    (game.deleteOutcome handle).2.denoted index =
      if game.denoted index = some handle then none else game.denoted index := by
  obtain ⟨doomed, here, -⟩ := place_known game handle place found
  have inside := (Array.getElem?_eq_some_iff.mp here).1
  have after : (game.deleteOutcome handle).2.denoted index =
      ((game.cells[index]?.map (cellWithout place)).join.bind fun other =>
        (renumber (game.outcomes.eraseIdxIfInBounds place))[other]?).map Outcome.handle := by
    simp only [deleteOutcome, found, denoted, touch, Array.getElem?_map]
  rw [after]
  rw [denoted]
  cases cell : game.cells[index]? with
  | none => rfl
  | some target =>
      cases target with
      | none => rfl
      | some old =>
          have oldInside := valid.places index old cell
          have known := Array.getElem?_eq_getElem oldInside
          have same := place_of_handle game distinct handle place old _ found known
          simp only [Option.map_some, Option.join_some, Option.bind_some, known, Option.some.injEq, same]
          by_cases gone : old = place
          · rw [if_pos gone]
            simp [cellWithout, gone]
          · rw [if_neg gone]
            by_cases later : place < old
            · have shifted : old - 1 + 1 = old := by omega
              have notBefore : ¬ old - 1 < place := by omega
              simp [cellWithout, gone, later, deleted_outcomes _ _ inside, shifted, notBefore, known]
            · have before : old < place := by omega
              simp [cellWithout, gone, later, deleted_outcomes _ _ inside, before, known]

theorem delete_refines (game : Game) (valid : game.WellFormed) (distinct : game.handles.Nodup)
    (handle : Handle) :
    (game.deleteOutcome handle).1 = (game.store.deleteOutcome handle).1 ∧
      (game.deleteOutcome handle).2.store = (game.store.deleteOutcome handle).2 := by
  have live := store_live game handle
  cases found : game.place? handle with
  | none =>
      rw [found, Option.isSome_none] at live
      have kept : game.deleteOutcome handle = (false, game) := by simp only [deleteOutcome, found]
      have same : game.store.deleteOutcome handle = (false, game.store) :=
        if_neg (by rw [live]; exact Bool.false_ne_true)
      rw [kept, same]
      exact ⟨rfl, rfl⟩
  | some place =>
      rw [found, Option.isSome_some] at live
      have cells := delete_denoted game valid distinct handle place found
      have entries : (game.outcomes.toList.eraseIdx place).map Outcome.entry =
          (game.outcomes.toList.map Outcome.entry).filter fun entry => entry.handle != handle := by
        rw [erase_found Outcome.handle handle _ place distinct found, List.filter_map]
        rfl
      rw [Store.deleteOutcome]
      rw [if_pos live]
      simp only [store, deleteOutcome, found] at cells ⊢
      refine ⟨trivial, ?_⟩
      congr 1
      · rw [← entries, ← Array.toList_eraseIdxIfInBounds]
        exact renumber_entries _
      · funext strategies
        by_cases range : game.dimensions.InRange strategies
        · simp only [if_pos range]
          exact (if_pos range).trans (cells _)
        · simp only [if_neg range, reduceCtorEq, if_false]
          exact if_neg range

theorem new_outcome_refines (game : Game) (valid : game.WellFormed) (handle : Handle) :
    (game.newOutcome handle).store = game.store.newOutcome handle := by
  have cells : ∀ index, (game.newOutcome handle).denoted index = game.denoted index := by
    intro index
    simp only [denoted, newOutcome, touch]
    cases cell : game.cells[index]? with
    | none => rfl
    | some target =>
        cases target with
        | none => rfl
        | some place =>
            have inside := valid.places index place cell
            simp only [Option.join_some, Option.bind_some]
            rw [Array.getElem?_push_lt inside, Array.getElem?_eq_getElem inside]
  unfold store Store.newOutcome
  simp only [cells]
  congr 1
  simp [newOutcome, touch, Outcome.blank, Outcome.entry, dimensions]

theorem modify_refines (game after : Game) (distinct : game.handles.Nodup) (handle : Handle) (place : Nat)
    (found : game.place? handle = some place) (change : Outcome → Outcome)
    (update : Store.Entry → Store.Entry) (entries : ∀ outcome, (change outcome).entry = update outcome.entry)
    (keeps : ∀ outcome, (change outcome).handle = outcome.handle)
    (dims : after.dimensions = game.dimensions) (cells : after.cells = game.cells)
    (outcomes : after.outcomes = game.outcomes.modify place change) :
    after.store = game.store.change handle update := by
  have denotes : ∀ index, after.denoted index = game.denoted index := by
    intro index
    unfold denoted
    rw [cells]
    cases game.cells[index]?.join with
    | none => rfl
    | some other =>
        simp only [Option.bind_some, outcomes, Array.getElem?_modify]
        split
        · rw [Option.map_map]
          exact congrArg (Option.map · _) (funext keeps)
        · rfl
  unfold store Store.change
  simp only [denotes, dims, outcomes, Array.toList_modify]
  congr 1
  rw [modify_found Outcome.handle handle _ place change distinct found, List.map_map, List.map_map]
  apply List.map_congr_left
  intro outcome _
  by_cases named : outcome.handle == handle
  · simp only [Function.comp_apply, Outcome.entry, named, if_true]
    exact entries outcome
  · simp only [Function.comp_apply, Outcome.entry, named, if_false, Bool.false_eq_true]

theorem set_label_refines (game : Game) (distinct : game.handles.Nodup) (handle : Handle) (label : String) :
    (game.setLabel handle label).store = game.store.setLabel handle label := by
  have live := store_live game handle
  rw [setLabel]
  cases found : game.place? handle with
  | none =>
      rw [found, Option.isSome_none, Store.live, List.any_eq_false] at live
      have kept : game.store.entries.map (fun entry =>
          if entry.handle == handle then { entry with label } else entry) = game.store.entries :=
        (List.map_congr_left fun entry member => if_neg (live entry member)).trans (List.map_id' _)
      exact (congrArg (fun entries => { game.store with entries }) kept).symm
  | some place =>
      exact modify_refines game _ distinct handle place found (fun outcome => { outcome with label }) _
        (fun _ => rfl) (fun _ => rfl) rfl rfl rfl

theorem set_payoff_refines (game : Game) (distinct : game.handles.Nodup) (handle : Handle) (player : Nat)
    (value : Rat) :
    (game.setPayoff handle player value).toOption.map store = game.store.setPayoff? handle player value := by
  have live := store_live game handle
  have players : game.store.dims.length = game.players.length := List.length_map _
  rw [setPayoff, Store.setPayoff?, livePlace]
  by_cases inside : player < game.players.length
  · cases found : game.place? handle with
    | none =>
        rw [found] at live
        rw [if_pos inside, if_neg (by simp [live])]
        rfl
    | some place =>
        rw [found] at live
        rw [if_pos inside, if_pos ⟨players.symm ▸ inside, live⟩]
        exact congrArg some (modify_refines game _ distinct handle place found
          (fun outcome => outcome.setPayoff player value) _ (fun _ => rfl) (fun _ => rfl) rfl rfl rfl)
  · rw [if_neg inside, if_neg fun both => inside (players ▸ both.1)]
    rfl

theorem target_refines (game : Game) (outcome : Option Handle) :
    (outcome.all game.store.live = true ∧ ∃ target, game.target outcome = .ok target ∧
        (target.bind fun place => game.outcomes[place]?).map Outcome.handle = outcome) ∨
      (outcome.all game.store.live = false ∧ ∃ fault, game.target outcome = .error fault) := by
  cases outcome with
  | none => exact Or.inl ⟨rfl, none, rfl, rfl⟩
  | some handle =>
      have live := store_live game handle
      cases found : game.place? handle with
      | none =>
          rw [found] at live
          exact Or.inr ⟨live, .foreignOutcome, by simp [target, livePlace, found, Except.map]⟩
      | some place =>
          obtain ⟨named, known, same⟩ := place_known game handle place found
          rw [found] at live
          refine Or.inl ⟨live, some place, by simp [target, livePlace, found, Except.map], ?_⟩
          rw [Option.bind_some, known, Option.map_some, same]

theorem written_denoted (game : Game) (index other : Nat) (target : Option Nat)
    (inside : index < game.cells.size) :
    { game with cells := game.cells.setIfInBounds index target }.denoted other =
      if index = other then (target.bind fun place => game.outcomes[place]?).map Outcome.handle
      else game.denoted other := by
  unfold denoted
  by_cases here : index = other
  · rw [if_pos here, ← here]
    simp only [Array.getElem?_setIfInBounds_self_of_lt inside, Option.join_some]
  · rw [if_neg here]
    simp only [Array.getElem?_setIfInBounds_ne here]

theorem set_outcome_at_refines (game : Game) (valid : game.WellFormed) (index : Nat)
    (outcome : Option Handle) :
    (game.setOutcomeAt index outcome).toOption.map store = game.store.setOutcomeAt? index outcome := by
  rw [setOutcomeAt, Store.setOutcomeAt?, Store.setOutcome?]
  by_cases inside : index < game.dimensions.count
  · have range := game.dimensions.vector_at_in_range index inside
    have inCells : index < game.cells.size := valid.cells ▸ inside
    rw [if_pos inCells, if_pos (show index < game.store.dims.count from inside)]
    rcases target_refines game outcome with ⟨live, target, chosen, denotes⟩ | ⟨dead, fault, refused⟩
    · let after := { game with cells := game.cells.setIfInBounds index target }
      have written : after.store.cells =
          Function.update game.store.cells (game.dimensions.vectorAt index) outcome := by
        funext strategies
        by_cases other : game.dimensions.InRange strategies
        · have cell : after.store.cells strategies = after.denoted (game.dimensions.index strategies) := if_pos other
          rw [cell, written_denoted game index _ target inCells, denotes]
          by_cases here : index = game.dimensions.index strategies
          · rw [if_pos here, here, game.dimensions.vector_at_index strategies other, Function.update_self]
          · have apart : strategies ≠ game.dimensions.vectorAt index := fun same =>
              here (same ▸ (game.dimensions.index_vector_at index inside).symm)
            rw [if_neg here, Function.update_of_ne apart]
            exact (if_pos other).symm
        · have apart : strategies ≠ game.dimensions.vectorAt index := fun same => other (same ▸ range)
          rw [Function.update_of_ne apart]
          exact (if_neg other).trans (if_neg other).symm
      rw [if_pos ⟨range, live⟩, chosen, ok_bind]
      exact congrArg (fun cells => some { game.store with cells }) written
    · rw [if_neg fun both => Bool.false_ne_true (dead.symm.trans both.2), refused]
      rfl
  · rw [if_neg (valid.cells ▸ inside), if_neg (show ¬ index < game.store.dims.count from inside)]
    rfl

theorem same_store (game after : Game)
    (same : after.dimensions = game.dimensions ∧ after.outcomes = game.outcomes ∧ after.cells = game.cells) :
    after.store = game.store := by
  obtain ⟨dims, outcomes, cells⟩ := same
  have denotes : ∀ index, after.denoted index = game.denoted index := fun index => by
    rw [denoted, denoted, cells, outcomes]
  unfold store
  simp only [denotes, dims, outcomes]

theorem set_player_name_refines (game : Game) (player : Nat) (name : String) :
    (game.setPlayerName player name).toOption.map store =
      if player < game.store.dims.length then some game.store else none := by
  have size : game.store.dims.length = game.players.length := List.length_map _
  by_cases inside : player < game.players.length
  · obtain ⟨next, run⟩ : ∃ next, game.setPlayerName player name = .ok next :=
      ⟨_, by rw [setPlayerName, entry_inside _ _ inside, ok_bind]⟩
    rw [if_pos (size ▸ inside), run]
    exact congrArg some (same_store game next (set_player_name_dimensions game next player name run))
  · rw [if_neg (size ▸ inside), setPlayerName, entry, List.getElem?_eq_none (Nat.le_of_not_lt inside)]
    rfl

theorem set_strategy_name_refines (game : Game) (player strategy : Nat) (name : String) :
    (game.setStrategyName player strategy name).toOption.map store =
      if (game.store.dims[player]?).any fun count => strategy < count then some game.store else none := by
  have counts : game.store.dims[player]? = game.players[player]?.map fun owner => owner.strategies.length :=
    List.getElem?_map
  rw [counts]
  cases found : game.players[player]? with
  | none =>
      rw [setStrategyName, entry, found]
      rfl
  | some owner =>
      have read : entry game.players player = .ok owner := (entry_eq_ok _ _ _).mpr found
      by_cases inside : strategy < owner.strategies.length
      · obtain ⟨next, run⟩ : ∃ next, game.setStrategyName player strategy name = .ok next :=
          ⟨_, by rw [setStrategyName, read, ok_bind, entry_inside _ _ inside, ok_bind]⟩
        rw [if_pos (by simpa using inside), run]
        exact congrArg some (same_store game next (set_strategy_name_dimensions game next player strategy name run))
      · rw [if_neg (by simpa using inside), setStrategyName, read, ok_bind, entry,
          List.getElem?_eq_none (Nat.le_of_not_lt inside)]
        rfl

theorem refresh_refines (game : Game) : game.refresh.2.store = game.store := by
  rw [refresh]
  split
  · rfl
  · have denotes : ∀ index, { game with
        outcomes := game.outcomes.map Outcome.refresh
        refreshedAt := some game.revision }.denoted index = game.denoted index := by
      intro index
      unfold denoted
      cases game.cells[index]?.join with
      | none => rfl
      | some place =>
          simp only [Option.bind_some, Array.getElem?_map, Option.map_map]
          rfl
    rw [store]
    simp only [denotes, Array.toList_map, List.map_map]
    rfl

theorem touch_refines (run : Except Fault Game) :
    (run.map touch).toOption.map store = run.toOption.map store := by
  cases run with
  | error fault => rfl
  | ok game => rfl

theorem set_outcome_refines (game : Game) (valid : game.WellFormed) (strategies : List Nat)
    (outcome : Option Handle) :
    (game.setOutcome strategies outcome).toOption.map store = game.store.setOutcome? strategies outcome := by
  rw [setOutcome, flatIndex]
  by_cases range : game.dimensions.InRange strategies
  · have inside := game.dimensions.index_lt_count strategies range
    rw [game.dimensions.locate_in_range strategies range, ok_bind, touch_refines,
      set_outcome_at_refines game valid, Store.setOutcomeAt?,
      if_pos (show game.dimensions.index strategies < game.store.dims.count from inside)]
    exact congrArg (game.store.setOutcome? · outcome) (game.dimensions.vector_at_index strategies range)
  · obtain ⟨fault, refused⟩ := game.dimensions.locate_out_of_range strategies range
    rw [refused, Store.setOutcome?, if_neg fun both => range both.1]
    rfl

theorem perform_refines (game : Game) (valid : game.WellFormed) (distinct : game.handles.Nodup)
    (operation : Operation) :
    (game.perform operation).toOption.map store = game.store.perform? operation := by
  cases operation with
  | setTitle title => rfl
  | setComment comment => rfl
  | setPlayerName player name => exact set_player_name_refines game player name
  | setStrategyName player strategy name => exact set_strategy_name_refines game player strategy name
  | newOutcome handle => exact congrArg some (new_outcome_refines game valid handle)
  | deleteOutcome handle => exact congrArg some (delete_refines game valid distinct handle).2
  | setLabel handle label => exact congrArg some (set_label_refines game distinct handle label)
  | setPayoff handle player value => exact set_payoff_refines game distinct handle player value
  | setOutcome strategies outcome => exact set_outcome_refines game valid strategies outcome
  | setProfileOutcome profile outcome =>
      exact (touch_refines _).trans (set_outcome_at_refines game valid profile.index outcome)
  | setOutcomeAt index outcome => exact set_outcome_at_refines game valid index outcome
  | refresh => exact congrArg some (refresh_refines game)
  | markSaved => rfl
  | copy => rfl

/-! Handles stay distinct. -/

-- The handles that a history creates, in order.
def created (history : List Operation) : List Handle :=
  history.filterMap fun operation => match operation with
    | .newOutcome handle => some handle
    | _ => none

theorem handles_of_store (game : Game) : game.handles = game.store.entries.map Store.Entry.handle := by
  rw [handles, store]
  rw [List.map_map]
  rfl

theorem change_handles (store : Store) (handle : Handle) (update : Store.Entry → Store.Entry)
    (keeps : ∀ entry, (update entry).handle = entry.handle) :
    (store.change handle update).entries.map Store.Entry.handle = store.entries.map Store.Entry.handle := by
  rw [Store.change]
  rw [List.map_map]
  apply List.map_congr_left
  intro entry _
  by_cases named : entry.handle == handle
  · simp only [Function.comp_apply, named, if_true, keeps]
  · simp only [Function.comp_apply, named, if_false, Bool.false_eq_true]

theorem set_outcome_entries (store next : Store) (strategies : List Nat) (outcome : Option Handle)
    (run : store.setOutcome? strategies outcome = some next) : next.entries = store.entries := by
  rw [Store.setOutcome?] at run
  split at run
  · cases run
    rfl
  · cases run

theorem set_outcome_at_entries (store next : Store) (index : Nat) (outcome : Option Handle)
    (run : store.setOutcomeAt? index outcome = some next) : next.entries = store.entries := by
  rw [Store.setOutcomeAt?] at run
  split at run
  · exact set_outcome_entries store next _ outcome run
  · cases run

theorem perform_handles (store next : Store) (operation : Operation)
    (run : store.perform? operation = some next) :
    (next.entries.map Store.Entry.handle).Sublist
      (store.entries.map Store.Entry.handle ++ created [operation]) := by
  have kept (same : next.entries.map Store.Entry.handle = store.entries.map Store.Entry.handle) :
      (next.entries.map Store.Entry.handle).Sublist
        (store.entries.map Store.Entry.handle ++ created [operation]) := by
    rw [same]
    exact List.sublist_append_left _ _
  have unchanged (same : some store = some next) : (next.entries.map Store.Entry.handle).Sublist
      (store.entries.map Store.Entry.handle ++ created [operation]) :=
    kept (Option.some.inj same ▸ rfl)
  cases operation with
  | newOutcome handle =>
      cases run
      simp [Store.newOutcome, created]
  | deleteOutcome handle =>
      cases run
      rw [show created [.deleteOutcome handle] = [] from rfl, List.append_nil]
      rw [Store.deleteOutcome]
      split
      · exact List.filter_sublist.map _
      · exact List.Sublist.refl _
  | setLabel handle label =>
      cases run
      exact kept (change_handles store handle (fun entry => { entry with label }) fun _ => rfl)
  | setPayoff handle player value =>
      simp only [Store.perform?, Store.setPayoff?] at run
      split at run
      · cases run
        exact kept (change_handles store handle
          (fun entry => { entry with payoffs := entry.payoffs.set player value }) fun _ => rfl)
      · cases run
  | setOutcome strategies outcome =>
      exact kept (congrArg _ (set_outcome_entries store next strategies outcome run))
  | setProfileOutcome profile outcome =>
      exact kept (congrArg _ (set_outcome_at_entries store next profile.index outcome run))
  | setOutcomeAt index outcome =>
      exact kept (congrArg _ (set_outcome_at_entries store next index outcome run))
  | setPlayerName player name =>
      simp only [Store.perform?] at run
      split at run
      · exact unchanged run
      · cases run
  | setStrategyName player strategy name =>
      simp only [Store.perform?] at run
      split at run
      · exact unchanged run
      · cases run
  | setTitle title => exact unchanged run
  | setComment comment => exact unchanged run
  | refresh => exact unchanged run
  | markSaved => exact unchanged run
  | copy => exact unchanged run

-- Handles still to be created are new to the game.
structure Fresh (game : Game) (history : List Operation) : Prop where
  distinct : game.handles.Nodup
  later : (created history).Nodup
  apart : game.handles.Disjoint (created history)

theorem created_cons (operation : Operation) (rest : List Operation) :
    created (operation :: rest) = created [operation] ++ created rest :=
  List.filterMap_append (l := [operation])

theorem fresh_step (game next : Game) (operation : Operation) (rest : List Operation)
    (fresh : game.Fresh (operation :: rest)) (refined : game.store.perform? operation = some next.store) :
    next.Fresh rest := by
  have sub := perform_handles game.store next.store operation refined
  rw [← handles_of_store, ← handles_of_store] at sub
  have later := fresh.later
  have apart := fresh.apart
  rw [created_cons] at later apart
  obtain ⟨hereNodup, restNodup, hereApart⟩ := List.nodup_append'.mp later
  obtain ⟨gameHere, gameRest⟩ := List.disjoint_append_right.mp apart
  refine ⟨sub.nodup (List.nodup_append'.mpr ⟨fresh.distinct, hereNodup, gameHere⟩), restNodup, ?_⟩
  intro handle inNext inRest
  rcases List.mem_append.mp (sub.subset inNext) with old | new
  · exact gameRest old inRest
  · exact hereApart new inRest

-- The induction is on the history; the store follows the game step by step.
theorem perform_all_refines (game : Game) (valid : game.WellFormed) (history : List Operation)
    (fresh : game.Fresh history) :
    (game.performAll history).toOption.map store = game.store.performAll? history ∧
      ∀ next, game.performAll history = .ok next → next.handles.Nodup := by
  induction history generalizing game with
  | nil =>
      refine ⟨rfl, ?_⟩
      intro next done
      cases done
      exact fresh.distinct
  | cons operation rest ih =>
      have refined := perform_refines game valid fresh.distinct operation
      unfold performAll Store.performAll? at ih ⊢
      rw [List.foldlM_cons, List.foldlM_cons, ← refined]
      cases run : game.perform operation with
      | error fault => exact ⟨rfl, nofun⟩
      | ok between =>
          rw [run] at refined
          have betweenValid := (perform_well_formed game between valid operation run).1
          exact ih between betweenValid (fresh_step game between operation rest fresh refined.symm)

end Game

end NormalForm
