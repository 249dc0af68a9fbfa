import NormalForm.File.Reader
import NormalForm.Game.Random
import NormalForm.Game.Samples
import NormalForm.Proofs.File.Loading
import NormalForm.Proofs.Game.Refinement

/-!
Handles of one game. Creation appends one, deletion takes one away, and no other operation changes them;
games that are loaded number theirs from a first key on.
-/

set_option autoImplicit false

namespace NormalForm

namespace Game

theorem outcome_found_iff (game : Game) (handle : Handle) :
    (game.outcome? handle).isSome ↔ handle ∈ game.handles := by
  have found : (game.outcome? handle).isSome = (game.store.find? handle).isSome := by
    rw [store_find, Option.isSome_map]
  rw [found, Store.find?, List.find?_isSome, handles_of_store, List.mem_map]
  simp only [beq_iff_eq]

theorem handles_length (game : Game) : game.handles.length = game.outcomes.size := by
  rw [handles, List.length_map, Array.length_toList]

theorem modified_handles (outcomes : Array Outcome) (place : Nat) (change : Outcome → Outcome)
    (keeps : ∀ outcome, (change outcome).handle = outcome.handle) :
    (outcomes.modify place change).toList.map Outcome.handle = outcomes.toList.map Outcome.handle := by
  apply List.ext_getElem?
  intro other
  rw [List.getElem?_map, List.getElem?_map, Array.getElem?_toList, Array.getElem?_toList, Array.getElem?_modify]
  split
  · rw [Option.map_map]
    exact congrArg (Option.map · _) (funext keeps)
  · rfl

theorem new_outcome_handles (game : Game) (handle : Handle) :
    (game.newOutcome handle).handles = game.handles ++ [handle] := by
  simp [handles, newOutcome, touch, Outcome.blank]

theorem add_outcome_handles (game : Game) (handle : Handle) (label : String) (payoffs : List Rat) :
    (game.addOutcome handle label payoffs).handles = game.handles ++ [handle] := by
  simp [handles, addOutcome, Outcome.ofPayoffs]

theorem delete_outcome_handles (game : Game) (distinct : game.handles.Nodup) (handle : Handle) :
    ((game.deleteOutcome handle).1 = true ↔ handle ∈ game.handles) ∧
      (game.deleteOutcome handle).2.handles = game.handles.filter fun other => other != handle := by
  have live := game.outcome_found_iff handle
  rw [outcome?] at live
  rw [deleteOutcome]
  cases found : game.place? handle with
  | none =>
      have absent : handle ∉ game.handles := fun member => by
        simp [found] at live
        exact live member
      refine ⟨⟨fun deleted => absurd deleted Bool.false_ne_true, fun member => absurd member absent⟩,
        (List.filter_eq_self.mpr fun other member => ?_).symm⟩
      simpa using fun same : other = handle => absent (same ▸ member)
  | some place =>
      obtain ⟨outcome, known, rfl⟩ := place_known game handle place found
      have member : outcome.handle ∈ game.handles :=
        List.mem_map_of_mem (Array.mem_toList_iff.mpr (Array.mem_of_getElem? known))
      have renumbered : (renumber (game.outcomes.eraseIdxIfInBounds place)).toList.map Outcome.handle =
          (game.outcomes.eraseIdxIfInBounds place).toList.map Outcome.handle := by
        have entries := congrArg (List.map Store.Entry.handle)
          (renumber_entries (game.outcomes.eraseIdxIfInBounds place))
        rw [List.map_map, List.map_map] at entries
        exact entries
      refine ⟨⟨fun _ => member, fun _ => rfl⟩, renumbered.trans ?_⟩
      rw [Array.toList_eraseIdxIfInBounds, erase_found Outcome.handle outcome.handle _ place distinct found, handles,
        List.filter_map]
      rfl

theorem set_outcome_at_handles (game next : Game) (index : Nat) (outcome : Option Handle)
    (run : game.setOutcomeAt index outcome = .ok next) : next.handles = game.handles := by
  obtain ⟨-, target, -, rfl⟩ := set_outcome_at_ok game next index outcome run
  rfl

theorem set_outcome_handles (game next : Game) (strategies : List Nat) (outcome : Option Handle)
    (run : game.setOutcome strategies outcome = .ok next) : next.handles = game.handles := by
  obtain ⟨index, -, rest⟩ := bind_eq_ok.mp run
  obtain ⟨written, stored, rfl⟩ := map_touch_ok _ next rest
  exact set_outcome_at_handles game written index outcome stored

theorem set_strategy_name_handles (game next : Game) (player strategy : Nat) (name : String)
    (run : game.setStrategyName player strategy name = .ok next) : next.handles = game.handles := by
  obtain ⟨-, outcomes, -⟩ := set_strategy_name_dimensions game next player strategy name run
  rw [handles, outcomes, handles]

-- Neither creates nor deletes an outcome.
def Operation.keepsHandles : Operation → Bool
  | .newOutcome _ => false
  | .deleteOutcome _ => false
  | _ => true

theorem perform_keeps_handles (game next : Game) (operation : Operation) (keeps : operation.keepsHandles)
    (run : game.perform operation = .ok next) : next.handles = game.handles := by
  cases operation with
  | newOutcome handle => cases keeps
  | deleteOutcome handle => cases keeps
  | setPlayerName player name =>
      obtain ⟨-, outcomes, -⟩ := set_player_name_dimensions game next player name run
      rw [handles, outcomes, handles]
  | setStrategyName player strategy name => exact set_strategy_name_handles game next player strategy name run
  | setLabel handle label =>
      cases run
      rw [setLabel]
      split
      · rfl
      · exact modified_handles game.outcomes _ (fun outcome => { outcome with label }) fun _ => rfl
  | setPayoff handle player value =>
      obtain ⟨-, place, -, rfl⟩ := set_payoff_ok game next handle player value run
      exact modified_handles game.outcomes place (fun outcome => outcome.setPayoff player value) fun _ => rfl
  | setOutcome strategies outcome => exact set_outcome_handles game next strategies outcome run
  | setProfileOutcome profile outcome =>
      obtain ⟨written, stored, rfl⟩ := map_touch_ok _ next run
      exact set_outcome_at_handles game written _ outcome stored
  | setOutcomeAt index outcome => exact set_outcome_at_handles game next index outcome run
  | refresh =>
      cases run
      rw [refresh]
      split
      · rfl
      · simp only [handles, Array.toList_map, List.map_map]
        rfl
  | setTitle title =>
      cases run
      rfl
  | setComment comment =>
      cases run
      rfl
  | markSaved =>
      cases run
      rfl
  | copy =>
      cases run
      rfl

/-! Games that are loaded. -/

-- The handles have the keys from `first` on, in order.
def NumberedFrom (game : Game) (first : Nat) : Prop :=
  game.handles = (List.range' first game.outcomes.size).map Handle.mk

theorem numbered_from (game : Game) (first count : Nat)
    (handles : game.handles = (List.range' first count).map Handle.mk) : game.NumberedFrom first := by
  have size : count = game.outcomes.size := by
    rw [← game.handles_length, handles, List.length_map, List.length_range']
  rwa [size] at handles

theorem zip_handles {α : Type} (items : List α) (first : Nat) :
    (items.zipIdx.map fun item => (⟨first + item.2⟩ : Handle)) = (List.range' first items.length).map Handle.mk := by
  have keys : (items.zipIdx.map Prod.snd).map (first + ·) = List.range' first items.length := by
    rw [List.zipIdx_map_snd, List.map_add_range', Nat.add_zero]
  rw [← keys, List.map_map, List.map_map]
  rfl

theorem add_listed_handles (game : Game) (none : game.outcomes = #[]) (first : Nat)
    (listed : List (String × List Rat)) :
    (File.Description.addListed game first listed).handles = (List.range' first listed.length).map Handle.mk := by
  rw [handles, File.Description.add_listed_placed game none, List.map_map, ← zip_handles listed]
  rfl

theorem fill_numbered (game : Game) (none : game.outcomes = #[]) (first : Nat) (payoffs : Nat → List Rat) :
    (game.fill first payoffs).NumberedFrom first := by
  rw [File.Description.fill_all game none]
  exact numbered_from _ first _ (add_listed_handles game none first _)

theorem parse_numbered (first : Nat) (text : String) (game : Game) (read : Game.parse first text = .ok game) :
    game.NumberedFrom first := by
  obtain ⟨tokens, -, run⟩ := bind_eq_ok.mp read
  obtain ⟨⟨title, comment, players, content⟩, -, finish⟩ := bind_eq_ok.mp run
  cases finish
  cases content with
  | outcomes listed ids => exact numbered_from _ first _ (add_listed_handles _ rfl first listed)
  | payoffs values => exact fill_numbered _ rfl first _

theorem of_rows_numbered (first : Nat) (dims : Dimensions) (rows : List (List Rat)) (game : Game)
    (made : Game.ofRows first dims rows = .ok (.ok game)) : game.NumberedFrom first := by
  obtain ⟨start, blank, run⟩ := bind_eq_ok.mp made
  obtain ⟨-, rfl⟩ := of_dimensions_ok dims start blank
  split at run
  · cases run
  · split at run
    · cases run
    · cases run
      exact fill_numbered _ rfl first _

theorem random_numbered (first : Nat) (dims : Dimensions) (seed : UInt64) (places : Nat) (game : Game)
    (made : Game.random first dims seed places = .ok game) : game.NumberedFrom first := by
  rw [Game.random] at made
  split at made
  · cases made
  · obtain ⟨start, blank, finish⟩ := bind_eq_ok.mp made
    obtain ⟨-, rfl⟩ := of_dimensions_ok dims start blank
    cases finish
    exact fill_numbered _ rfl first _

end Game

namespace Sample

open Game

theorem place_handles (first : Nat) (game next : Game) (row : (List Nat × List Int) × Nat)
    (run : place first game row = .ok next) : next.handles = game.handles ++ [⟨first + row.2⟩] :=
  (set_outcome_handles _ next _ _ run).trans (add_outcome_handles game _ _ _)

theorem placed_handles (first : Nat) (rows : List ((List Nat × List Int) × Nat)) (game next : Game)
    (run : rows.foldlM (place first) game = .ok next) :
    next.handles = game.handles ++ rows.map fun row => ⟨first + row.2⟩ := by
  induction rows generalizing game with
  | nil =>
      cases run
      exact (List.append_nil _).symm
  | cons row rows ih =>
      obtain ⟨between, here, later⟩ := bind_eq_ok.mp run
      rw [ih between later, place_handles first game between row here, List.append_assoc]
      rfl

theorem tabulate_numbered (first : Nat) (dims : Dimensions) (rows : List (List Nat × List Int)) (game : Game)
    (made : tabulate first dims rows = .ok game) : game.NumberedFrom first := by
  obtain ⟨start, blank, run⟩ := bind_eq_ok.mp made
  obtain ⟨-, rfl⟩ := of_dimensions_ok dims start blank
  refine numbered_from game first rows.length ?_
  rw [placed_handles first _ _ game run, zip_handles]
  rfl

theorem name_dilemma_handles (game next : Game) (run : nameDilemma game = .ok next) : next.handles = game.handles := by
  obtain ⟨one, first, run⟩ := bind_eq_ok.mp run
  obtain ⟨two, second, run⟩ := bind_eq_ok.mp run
  obtain ⟨three, third, run⟩ := bind_eq_ok.mp run
  rw [set_strategy_name_handles _ _ _ _ _ run, set_strategy_name_handles _ _ _ _ _ third,
    set_strategy_name_handles _ _ _ _ _ second, set_strategy_name_handles _ _ _ _ _ first]
  rfl

theorem sample_numbered (first : Nat) (sample : Sample) (game : Game) (made : sample.game first = .ok game) :
    game.NumberedFrom first := by
  cases sample with
  | prisonersDilemma =>
      obtain ⟨table, tabulated, named⟩ := bind_eq_ok.mp made
      have handles := (name_dilemma_handles table game named).trans (tabulate_numbered first _ _ table tabulated)
      exact numbered_from game first _ handles
  | _ => exact tabulate_numbered first _ _ game made

end Sample

end NormalForm
