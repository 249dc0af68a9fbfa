import NormalForm.Proofs.Game.Operations

/-!
The floating-point payoffs of a game are its exact payoffs, each rounded to the nearest number, after
any history of operations and copies, whether or not they were ever refreshed. A refresh therefore
changes no payoff. It does its work when the revision has risen since it last did, or when it was never
asked for on this game.
-/

set_option autoImplicit false

namespace NormalForm

def Outcome.Rounded (outcome : Outcome) : Prop := outcome.floats = outcome.payoffs.map Binary64.nearest

namespace Game

-- Every outcome has its exact payoffs, rounded, as its floating-point payoffs.
def Rounded (game : Game) : Prop :=
  ∀ (place : Nat) outcome, game.outcomes[place]? = some outcome → outcome.Rounded

theorem nearest_zero : Binary64.nearest 0 = 0.0 := rfl

theorem refresh_rounded (outcome : Outcome) (rounded : outcome.Rounded) : outcome.refresh = outcome := by
  rw [Outcome.refresh, ← rounded]

theorem modified_rounded (game after : Game) (rounded : game.Rounded) (place : Nat)
    (change : Outcome → Outcome) (keeps : ∀ outcome, outcome.Rounded → (change outcome).Rounded)
    (outcomes : after.outcomes = game.outcomes.modify place change) : after.Rounded := by
  intro other outcome found
  rw [outcomes, Array.getElem?_modify] at found
  by_cases here : place = other
  · rw [if_pos here, Option.map_eq_some_iff] at found
    obtain ⟨old, known, changed⟩ := found
    exact changed ▸ keeps old (rounded other old known)
  · rw [if_neg here] at found
    exact rounded other outcome found

theorem new_outcome_rounded (game : Game) (rounded : game.Rounded) (handle : Handle) :
    (game.newOutcome handle).Rounded := by
  intro place outcome found
  simp only [newOutcome, touch, Array.getElem?_push] at found
  by_cases last : place = game.outcomes.size
  · rw [if_pos last, Option.some.injEq] at found
    rw [← found, Outcome.Rounded, Outcome.blank, List.map_replicate, nearest_zero]
  · rw [if_neg last] at found
    exact rounded place outcome found

theorem delete_outcome_rounded (game : Game) (rounded : game.Rounded) (handle : Handle) :
    (game.deleteOutcome handle).2.Rounded := by
  rw [deleteOutcome]
  cases found : game.place? handle with
  | none => exact rounded
  | some place =>
      obtain ⟨doomed, known, -⟩ := place_known game handle place found
      obtain ⟨inside, -⟩ := Array.getElem?_eq_some_iff.mp known
      intro other outcome renumbered
      simp only [touch, deleted_outcomes _ _ inside, Option.map_eq_some_iff] at renumbered
      obtain ⟨old, moved, rfl⟩ := renumbered
      by_cases before : other < place
      · rw [if_pos before] at moved
        exact rounded other old moved
      · rw [if_neg before] at moved
        exact rounded (other + 1) old moved

theorem set_payoff_rounded (outcome : Outcome) (rounded : outcome.Rounded) (player : Nat) (value : Rat) :
    (outcome.setPayoff player value).Rounded := by
  rw [Outcome.Rounded, Outcome.setPayoff, rounded, List.map_set]

theorem perform_rounded (game next : Game) (rounded : game.Rounded) (operation : Operation)
    (run : game.perform operation = .ok next) : next.Rounded := by
  have same (after : Game) (outcomes : after.outcomes = game.outcomes) : after.Rounded :=
    fun place outcome found => rounded place outcome (outcomes ▸ found)
  have written (after : Game) (index : Nat) (outcome : Option Handle)
      (stored : game.setOutcomeAt index outcome = .ok after) : after.Rounded := by
    obtain ⟨-, target, -, rfl⟩ := set_outcome_at_ok game after index outcome stored
    exact rounded
  cases operation with
  | setTitle title => cases run; exact rounded
  | setComment comment => cases run; exact rounded
  | setPlayerName player name => exact same next (set_player_name_dimensions game next player name run).2.1
  | setStrategyName player strategy name =>
      exact same next (set_strategy_name_dimensions game next player strategy name run).2.1
  | newOutcome handle => cases run; exact new_outcome_rounded game rounded handle
  | deleteOutcome handle => cases run; exact delete_outcome_rounded game rounded handle
  | setLabel handle label =>
      cases run
      rw [setLabel]
      cases game.place? handle with
      | none => exact rounded
      | some place =>
          exact modified_rounded game _ rounded place (fun outcome => { outcome with label }) (fun _ kept => kept) rfl
  | setPayoff handle player value =>
      obtain ⟨-, place, -, rfl⟩ := set_payoff_ok game next handle player value run
      exact modified_rounded game _ rounded place _ (fun _ kept => set_payoff_rounded _ kept player value) rfl
  | setOutcome strategies outcome =>
      obtain ⟨index, -, rest⟩ := bind_eq_ok.mp run
      obtain ⟨after, stored, rfl⟩ := map_touch_ok _ next rest
      exact written after index outcome stored
  | setProfileOutcome profile outcome =>
      obtain ⟨after, stored, rfl⟩ := map_touch_ok _ next run
      exact written after profile.index outcome stored
  | setOutcomeAt index outcome => exact written next index outcome run
  | refresh =>
      cases run
      rw [refresh]
      split
      · exact rounded
      · intro place outcome found
        simp only [Array.getElem?_map, Option.map_eq_some_iff] at found
        obtain ⟨old, -, rfl⟩ := found
        rfl
  | markSaved => cases run; exact rounded
  | copy => cases run; exact rounded

theorem perform_all_rounded (game next : Game) (rounded : game.Rounded) (history : List Operation)
    (run : game.performAll history = .ok next) : next.Rounded := by
  induction history generalizing game with
  | nil =>
      cases run
      exact rounded
  | cons operation rest ih =>
      obtain ⟨between, here, later⟩ := bind_eq_ok.mp run
      exact ih between (perform_rounded game between rounded operation here) later

theorem reachable_rounded (game : Game) (reached : game.Reachable) : game.Rounded := by
  obtain ⟨dims, start, history, made, run⟩ := reached
  obtain ⟨-, rfl⟩ := of_dimensions_ok dims start made
  exact perform_all_rounded _ game (by simp [Rounded, blank]) history run

theorem float_payoff_at_rounded (game : Game) (rounded : game.Rounded) (index player : Nat) :
    game.floatPayoffAt index player = (game.payoffAt index player).map Binary64.nearest := by
  rw [floatPayoffAt, payoffAt, bind_map]
  refine bind_congr fun cell => ?_
  cases cell with
  | none => exact congrArg Except.ok nearest_zero.symm
  | some place =>
      dsimp only
      cases found : entry game.outcomes.toList place with
      | error fault => rfl
      | ok outcome =>
          have known := (entry_eq_ok _ _ _).mp found
          have same := rounded place outcome (Array.getElem?_toList ▸ known)
          rw [ok_bind, ok_bind, same, entry_map]

-- A refresh leaves a note of the revision, and all else as it is.
theorem refresh_notes (game : Game) (rounded : game.Rounded) :
    game.refresh.2 = { game with refreshedAt := some game.revision } := by
  rw [refresh]
  split
  · rename_i done
    rw [← done]
  · have same : game.outcomes.map Outcome.refresh = game.outcomes := by
      apply Array.ext_getElem?
      intro place
      rw [Array.getElem?_map]
      cases found : game.outcomes[place]? with
      | none => rfl
      | some outcome => exact congrArg some (refresh_rounded outcome (rounded place outcome found))
    rw [same]

theorem refresh_works_iff (game : Game) : game.refresh.1 = true ↔ game.refreshedAt ≠ some game.revision := by
  rw [refresh]
  split
  · rename_i done
    simp [done]
  · rename_i due
    simp [due]

/-! What the operations do to the revision, to the note of the last refresh and to the mark of unsaved changes. -/

-- Changes after which the revision and the mark stay as they were.
def Operation.isSilent : Operation → Bool
  | .setPlayerName .. => true
  | .setStrategyName .. => true
  | .setLabel .. => true
  | .setOutcomeAt .. => true
  | _ => false

-- Changes of what a game holds, as callers ask for them.
def Operation.isEdit : Operation → Bool
  | .refresh => false
  | .markSaved => false
  | .copy => false
  | _ => true

structure SameMarks (before after : Game) : Prop where
  revision : after.revision = before.revision
  note : after.refreshedAt = before.refreshedAt
  unsaved : after.unsaved = before.unsaved

-- An edit is counted and marked, or it is one of the silent ones, or there was nothing to change.
inductive Marks (game : Game) (operation : Operation) (next : Game) : Prop where
  | touched (changed : Game) (same : game.SameMarks changed) (counted : next = changed.touch)
  | silent (silent : operation.isSilent) (same : game.SameMarks next)
  | idle (same : next = game)

theorem same_marks_refl (game : Game) : game.SameMarks game := ⟨rfl, rfl, rfl⟩

theorem set_outcome_at_marks (game next : Game) (index : Nat) (outcome : Option Handle)
    (run : game.setOutcomeAt index outcome = .ok next) : game.SameMarks next := by
  obtain ⟨-, target, -, rfl⟩ := set_outcome_at_ok game next index outcome run
  exact ⟨rfl, rfl, rfl⟩

theorem edit_marks (game next : Game) (operation : Operation) (edit : operation.isEdit)
    (run : game.perform operation = .ok next) : Marks game operation next := by
  cases operation with
  | setTitle title =>
      cases run
      exact .touched { game with title } ⟨rfl, rfl, rfl⟩ rfl
  | setComment comment =>
      cases run
      exact .touched { game with comment } ⟨rfl, rfl, rfl⟩ rfl
  | setPlayerName player name =>
      obtain ⟨owner, -, result⟩ := bind_eq_ok.mp run
      cases result
      exact .silent rfl ⟨rfl, rfl, rfl⟩
  | setStrategyName player strategy name =>
      obtain ⟨owner, -, rest⟩ := bind_eq_ok.mp run
      obtain ⟨_, -, result⟩ := bind_eq_ok.mp rest
      cases result
      exact .silent rfl ⟨rfl, rfl, rfl⟩
  | newOutcome handle =>
      cases run
      refine .touched { game with
        outcomes := game.outcomes.push (.blank handle (game.outcomes.size + 1) game.players.length) } ⟨rfl, rfl, rfl⟩ rfl
  | deleteOutcome handle =>
      cases run
      rw [deleteOutcome]
      cases game.place? handle with
      | none => exact .idle rfl
      | some place =>
          exact .touched { game with
            outcomes := renumber (game.outcomes.eraseIdxIfInBounds place)
            cells := game.cells.map (cellWithout place) } ⟨rfl, rfl, rfl⟩ rfl
  | setLabel handle label =>
      cases run
      refine .silent rfl ?_
      rw [setLabel]
      cases game.place? handle with
      | none => exact same_marks_refl game
      | some place => exact ⟨rfl, rfl, rfl⟩
  | setPayoff handle player value =>
      obtain ⟨-, place, -, counted⟩ := set_payoff_ok game next handle player value run
      exact .touched { game with
        outcomes := game.outcomes.modify place fun outcome => outcome.setPayoff player value } ⟨rfl, rfl, rfl⟩ counted
  | setOutcome strategies outcome =>
      obtain ⟨index, -, rest⟩ := bind_eq_ok.mp run
      obtain ⟨written, stored, counted⟩ := map_touch_ok _ next rest
      exact .touched written (set_outcome_at_marks game written index outcome stored) counted
  | setProfileOutcome profile outcome =>
      obtain ⟨written, stored, counted⟩ := map_touch_ok _ next run
      exact .touched written (set_outcome_at_marks game written profile.index outcome stored) counted
  | setOutcomeAt index outcome => exact .silent rfl (set_outcome_at_marks game next index outcome run)
  | refresh => cases edit
  | markSaved => cases edit
  | copy => cases edit

-- Apart from copies, which start anew, no operation lowers the revision, and only a refresh notes it.
theorem perform_ages (game next : Game) (rounded : game.Rounded) (operation : Operation)
    (run : game.perform operation = .ok next) (other : operation ≠ .copy) :
    game.revision ≤ next.revision ∧
      next.refreshedAt = if operation = .refresh then some game.revision else game.refreshedAt := by
  by_cases edit : operation.isEdit
  · have changes : operation ≠ .refresh := by
      rintro rfl
      cases edit
    rw [if_neg changes]
    cases edit_marks game next operation edit run with
    | touched changed same counted =>
        subst counted
        exact ⟨same.revision ▸ Nat.le_succ _, same.note⟩
    | silent _ same => exact ⟨Nat.le_of_eq same.revision.symm, same.note⟩
    | idle same =>
        subst same
        exact ⟨Nat.le_refl _, rfl⟩
  · cases operation with
    | refresh =>
        cases run
        rw [if_pos rfl, refresh_notes game rounded]
        exact ⟨Nat.le_refl _, rfl⟩
    | markSaved =>
        cases run
        exact ⟨Nat.le_refl _, rfl⟩
    | copy => exact absurd rfl other
    | _ => exact absurd rfl edit

theorem perform_all_ages (game next : Game) (rounded : game.Rounded) (history : List Operation)
    (run : game.performAll history = .ok next) (others : ∀ operation ∈ history, operation ≠ .copy) :
    game.revision ≤ next.revision := by
  induction history generalizing game with
  | nil =>
      cases run
      exact Nat.le_refl _
  | cons operation rest ih =>
      obtain ⟨between, here, later⟩ := bind_eq_ok.mp run
      obtain ⟨other, others⟩ := List.forall_mem_cons.mp others
      exact Nat.le_trans (perform_ages game between rounded operation here other).1
        (ih between (perform_rounded game between rounded operation here) later others)

-- While the revision stays where a refresh found it, the note of that refresh stays too.
theorem perform_all_keeps_note (game next : Game) (rounded : game.Rounded)
    (noted : game.refreshedAt = some game.revision) (history : List Operation)
    (run : game.performAll history = .ok next) (others : ∀ operation ∈ history, operation ≠ .copy)
    (unmoved : next.revision = game.revision) : next.refreshedAt = some next.revision := by
  induction history generalizing game with
  | nil =>
      cases run
      exact noted
  | cons operation rest ih =>
      obtain ⟨between, here, later⟩ := bind_eq_ok.mp run
      obtain ⟨other, others⟩ := List.forall_mem_cons.mp others
      obtain ⟨risen, note⟩ := perform_ages game between rounded operation here other
      have sound := perform_rounded game between rounded operation here
      have level : between.revision = game.revision :=
        Nat.le_antisymm (unmoved ▸ perform_all_ages between next sound rest later others) risen
      refine ih between sound ?_ later others (unmoved.trans level.symm)
      rw [note, noted, ite_self, level]

/-! A game with the refreshes that were asked for on it. A copy is another game, on which none was yet. -/

-- The revision at which a refresh was asked for, and whether it did its work.
structure Request where
  revision : Nat
  worked : Bool
deriving DecidableEq

structure Watched where
  game : Game
  -- The latest one first.
  requests : List Request

def Watched.lastWork? (watched : Watched) : Option Request := watched.requests.find? Request.worked

def Watched.refresh (watched : Watched) : Watched where
  game := watched.game.refresh.2
  requests := { revision := watched.game.revision, worked := watched.game.refresh.1 } :: watched.requests

def Watched.copy (watched : Watched) : Watched where
  game := watched.game.copy
  requests := []

def Watched.perform (watched : Watched) : Operation → Except Fault Watched
  | .refresh => .ok watched.refresh
  | .copy => .ok watched.copy
  | operation => (watched.game.perform operation).map fun game => { watched with game }

def Watched.performAll (watched : Watched) (history : List Operation) : Except Fault Watched :=
  history.foldlM Watched.perform watched

-- The note of a game is the revision of the last refresh that worked, and the first one asked for works.
structure Watched.Tracked (watched : Watched) : Prop where
  rounded : watched.game.Rounded
  note : watched.game.refreshedAt = watched.lastWork?.map Request.revision
  past : ∀ revision ∈ watched.game.refreshedAt, revision ≤ watched.game.revision
  begun : watched.requests ≠ [] → watched.game.refreshedAt ≠ none

theorem watched_perform_eq (watched : Watched) (operation : Operation) (changes : operation ≠ .refresh)
    (other : operation ≠ .copy) :
    watched.perform operation = (watched.game.perform operation).map fun game => { watched with game } := by
  cases operation with
  | refresh => exact absurd rfl changes
  | copy => exact absurd rfl other
  | _ => rfl

theorem watched_perform_game (watched : Watched) (operation : Operation) :
    (watched.perform operation).map Watched.game = watched.game.perform operation := by
  by_cases asks : operation = .refresh
  · rw [asks]
    rfl
  · by_cases copies : operation = .copy
    · rw [copies]
      rfl
    · rw [watched_perform_eq watched operation asks copies]
      cases watched.game.perform operation with
      | error fault => rfl
      | ok game => rfl

-- Watching a game does not disturb it.
theorem watched_perform_all_game (watched : Watched) (history : List Operation) :
    (watched.performAll history).map Watched.game = watched.game.performAll history := by
  induction history generalizing watched with
  | nil => rfl
  | cons operation rest ih =>
      rw [Watched.performAll, performAll, List.foldlM_cons, List.foldlM_cons, ← watched_perform_game]
      cases watched.perform operation with
      | error fault => rfl
      | ok next => exact ih next

theorem refresh_tracked (watched : Watched) (tracked : watched.Tracked) : watched.refresh.Tracked := by
  have noted := refresh_notes watched.game tracked.rounded
  refine ⟨perform_rounded _ _ tracked.rounded .refresh rfl, ?_, ?_, ?_⟩
  · rw [Watched.refresh, Watched.lastWork?, List.find?_cons, noted]
    cases worked : watched.game.refresh.1 with
    | true => rfl
    | false =>
        -- A refresh that did nothing found the note at the present revision.
        have standing : watched.game.refreshedAt = some watched.game.revision := by
          by_contra due
          rw [(refresh_works_iff watched.game).mpr due] at worked
          cases worked
        exact standing.symm.trans tracked.note
  · rw [Watched.refresh, noted]
    intro revision known
    exact Nat.le_of_eq (Option.some.inj known).symm
  · rw [Watched.refresh, noted]
    exact fun _ => Option.some_ne_none _

theorem copy_tracked (watched : Watched) (tracked : watched.Tracked) : watched.copy.Tracked where
  rounded := tracked.rounded
  note := rfl
  past := by
    intro revision known
    cases known
  begun := fun asked => absurd rfl asked

theorem perform_tracked (watched next : Watched) (tracked : watched.Tracked) (operation : Operation)
    (run : watched.perform operation = .ok next) : next.Tracked := by
  by_cases asks : operation = .refresh
  · subst asks
    exact Except.ok.inj run ▸ refresh_tracked watched tracked
  · by_cases copies : operation = .copy
    · subst copies
      exact Except.ok.inj run ▸ copy_tracked watched tracked
    · rw [watched_perform_eq watched operation asks copies] at run
      cases changed : watched.game.perform operation with
      | error fault =>
          rw [changed] at run
          cases run
      | ok game =>
          rw [changed] at run
          obtain rfl := Except.ok.inj run
          obtain ⟨risen, note⟩ := perform_ages watched.game game tracked.rounded operation changed copies
          rw [if_neg asks] at note
          refine ⟨perform_rounded _ game tracked.rounded operation changed, note.trans tracked.note, ?_, ?_⟩
          · intro revision known
            exact Nat.le_trans (tracked.past revision (note ▸ known)) risen
          · intro asked
            exact note ▸ tracked.begun asked

theorem perform_all_tracked (watched next : Watched) (tracked : watched.Tracked) (history : List Operation)
    (run : watched.performAll history = .ok next) : next.Tracked := by
  induction history generalizing watched with
  | nil =>
      cases run
      exact tracked
  | cons operation rest ih =>
      obtain ⟨between, here, later⟩ := bind_eq_ok.mp run
      exact ih between (perform_tracked watched between tracked operation here) later

theorem blank_tracked (dims : Dimensions) : Watched.Tracked { game := blank dims, requests := [] } where
  rounded := by simp [Rounded, blank]
  note := rfl
  past := by
    intro revision known
    cases known
  begun := fun asked => absurd rfl asked

theorem tracked_works_iff (watched : Watched) (tracked : watched.Tracked) :
    watched.game.refresh.1 = true ↔
      watched.requests = [] ∨ ∃ last ∈ watched.lastWork?, last.revision < watched.game.revision := by
  rw [refresh_works_iff, tracked.note]
  have past := tracked.past
  rw [tracked.note] at past
  cases worked : watched.lastWork? with
  | none =>
      have unasked : watched.requests = [] := by
        by_contra asked
        exact tracked.begun asked (tracked.note.trans (congrArg _ worked))
      simp [unasked]
  | some last =>
      have asked : watched.requests ≠ [] := by
        intro none
        rw [Watched.lastWork?, none] at worked
        cases worked
      have seen : last.revision ≤ watched.game.revision := past last.revision (by rw [worked]; rfl)
      simp only [Option.map_some, ne_eq, Option.some.injEq, asked, false_or, Option.mem_def, exists_eq_left']
      omega

-- Every history can be watched, and so each state of a game has the refreshes asked for on it.
theorem perform_all_watched (start game : Game) (history : List Operation)
    (run : start.performAll history = .ok game) :
    ∃ requests, Watched.performAll { game := start, requests := [] } history = .ok { game, requests } := by
  have seen := watched_perform_all_game { game := start, requests := [] } history
  rw [run] at seen
  cases watched : Watched.performAll { game := start, requests := [] } history with
  | error fault =>
      rw [watched] at seen
      cases seen
  | ok state =>
      rw [watched] at seen
      cases seen
      exact ⟨state.requests, rfl⟩

-- After any history of a game and its copies, every floating-point payoff is the exact one rounded. A
-- refresh changes no more than its note, works if none was asked for or the revision has risen since the
-- last one that worked, and does nothing until the revision has risen again.
theorem refresh_of_any_history (dims : Dimensions) (start game : Game) (made : ofDimensions dims = .ok start)
    (history : List Operation) (run : start.performAll history = .ok game) :
    (∀ (place : Nat) outcome, game.outcomes[place]? = some outcome →
      outcome.floats = outcome.payoffs.map Binary64.nearest) ∧
    (∀ index player, game.floatPayoffAt index player = (game.payoffAt index player).map Binary64.nearest) ∧
    game.refresh.2 = { game with refreshedAt := some game.revision } ∧
    (∃ requests, Watched.performAll { game := start, requests := [] } history = .ok { game, requests } ∧
      (game.refresh.1 = true ↔
        requests = [] ∨ ∃ last ∈ requests.find? Request.worked, last.revision < game.revision)) ∧
    ∀ between later, (∀ operation ∈ between, operation ≠ Operation.copy) →
      game.refresh.2.performAll between = .ok later → later.revision = game.revision →
      later.refresh = (false, later) := by
  obtain ⟨-, rfl⟩ := of_dimensions_ok dims start made
  obtain ⟨requests, watched⟩ := perform_all_watched (blank dims) game history run
  have tracked := perform_all_tracked _ { game, requests } (blank_tracked dims) history watched
  have noted := refresh_notes game tracked.rounded
  refine ⟨tracked.rounded, float_payoff_at_rounded game tracked.rounded, noted,
    ⟨requests, watched, tracked_works_iff { game, requests } tracked⟩, ?_⟩
  intro between later others changed unmoved
  have sound : game.refresh.2.Rounded := perform_rounded _ _ tracked.rounded .refresh rfl
  have standing := perform_all_keeps_note game.refresh.2 later sound (by rw [noted]) between changed others
    (by rw [unmoved, noted])
  rw [refresh, if_pos standing]

theorem refresh_works_once_after_a_change :
    ∃ game later,
      (blank [2]).performAll
        [.newOutcome ⟨7⟩, .setOutcomeAt 1 (some ⟨7⟩), .setPayoff ⟨7⟩ 0 3, .refresh, .setTitle "three"] = .ok game ∧
      game.refresh.2.performAll [.setPlayerName 0 "first", .setOutcomeAt 0 none] = .ok later ∧
      game.floatPayoffAt 1 0 = (game.payoffAt 1 0).map Binary64.nearest ∧
      game.refresh.1 = true ∧ later.refresh = (false, later) := by
  obtain ⟨-, rounded, -, ⟨requests, watched, works⟩, again⟩ := refresh_of_any_history [2] (blank [2]) _ rfl
    [.newOutcome ⟨7⟩, .setOutcomeAt 1 (some ⟨7⟩), .setPayoff ⟨7⟩ 0 3, .refresh, .setTitle "three"] rfl
  cases watched
  refine ⟨_, _, rfl, rfl, rounded 1 0, ?_, ?_⟩
  · exact works.mpr (.inr ⟨{ revision := 2, worked := true }, rfl, by decide⟩)
  · exact again [.setPlayerName 0 "first", .setOutcomeAt 0 none] _ (by decide) rfl rfl

end Game

end NormalForm
