import NormalForm.Proofs.File.Delivery
import NormalForm.Proofs.Game.Refreshing

/-!
What the mark of unsaved changes tells about the file that was written last. Names, labels and cells
written by their number leave no mark; a game without the mark differs from the one that was written by
no more than those.
-/

set_option autoImplicit false

namespace NormalForm

open File

/-! A writer that met no failure wrote the whole text. -/

theorem write_takes (sink after : Sink) (bytes : List UInt8) (taken : sink.write bytes = (true, after)) :
    after.taken = sink.taken ++ bytes := by
  rw [Sink.write] at taken
  cases room : sink.room with
  | none =>
      simp only [room, Prod.mk.injEq, true_and] at taken
      exact taken ▸ rfl
  | some room =>
      simp only [room, Prod.mk.injEq, decide_eq_true_eq] at taken
      obtain ⟨fits, rfl⟩ := taken
      rw [List.take_of_length_le fits]

theorem write_all_takes (sink after : Sink) (pieces : List (Except Fault String))
    (taken : sink.writeAll pieces = .ok (true, after)) :
    ∃ texts, pieces.mapM id = .ok texts ∧ after.taken = sink.taken ++ bytesOf (String.join texts) := by
  induction pieces generalizing sink with
  | nil =>
      cases taken
      refine ⟨[], rfl, ?_⟩
      rw [String.join_nil, bytes_of_empty]
      exact Array.appendList_nil.symm
  | cons piece rest ih =>
      obtain ⟨text, made, later⟩ := bind_eq_ok.mp taken
      cases written : sink.write (bytesOf text) with
      | mk whole between =>
          cases whole with
          | false =>
              rw [written] at later
              cases later
          | true =>
              rw [written] at later
              obtain ⟨texts, others, bytes⟩ := ih between later
              refine ⟨text :: texts, ?_, ?_⟩
              · rw [List.mapM_cons, id_eq, made, ok_bind, others]
                rfl
              · rw [bytes, write_takes sink between _ written, String.join_cons, bytes_of_append, taken_append]

theorem write_game_takes (writer written : Writer) (places : Nat) (game saved : Game)
    (wrote : writer.writeGame places game = .ok (true, written, saved)) :
    ∃ text, game.toText places = .ok text ∧ written.sink.taken = writer.sink.taken ++ bytesOf text ∧
      saved = game.markSaved := by
  obtain ⟨⟨done, between⟩, emitted, result⟩ := bind_eq_ok.mp wrote
  obtain ⟨⟨whole, sink⟩, taken, same⟩ := bind_eq_ok.mp emitted
  cases same
  cases result
  obtain ⟨texts, made, bytes⟩ := write_all_takes _ _ _ taken
  exact ⟨String.join texts, congrArg (· >>= fun texts => pure (String.join texts)) made, bytes, rfl⟩

-- Without a limit there is room for every piece.
theorem write_game_unlimited (writer : Writer) (room : writer.sink.room = none) (places : Nat)
    (within : places ≤ Decimal.maxPlaces) (game : Game) :
    ∃ written, writer.writeGame places game = .ok (true, written, game.markSaved) := by
  obtain ⟨text, shown⟩ := to_text_succeeds places within game
  have held : writer.sink.Holds (bytesOf text).length := fun limit limited => by
    cases room.symm.trans limited
  obtain ⟨after, taken, -⟩ := write_held writer.sink (bytesOf text) held
  refine ⟨{ writer with sink := after }, (write_game_at_once writer places game text shown).trans ?_⟩
  rw [taken]
  rfl

namespace Game

/-! Histories without their marked changes. -/

-- The same game with another note of the last refresh.
def renoted (game : Game) (note : Option Nat) : Game := { game with refreshedAt := note }

theorem silent_renoted (game next : Game) (note : Option Nat) (operation : Operation)
    (silent : operation.isSilent) (run : game.perform operation = .ok next) :
    (game.renoted note).perform operation = .ok (next.renoted note) := by
  cases operation with
  | setPlayerName player name =>
      obtain ⟨owner, found, result⟩ := bind_eq_ok.mp run
      cases result
      exact bind_eq_ok.mpr ⟨owner, found, rfl⟩
  | setStrategyName player strategy name =>
      obtain ⟨owner, found, rest⟩ := bind_eq_ok.mp run
      obtain ⟨old, known, result⟩ := bind_eq_ok.mp rest
      cases result
      exact bind_eq_ok.mpr ⟨owner, found, bind_eq_ok.mpr ⟨old, known, rfl⟩⟩
  | setLabel handle label =>
      have same : (game.renoted note).place? handle = game.place? handle := rfl
      cases run
      rw [perform, setLabel, setLabel, same]
      cases game.place? handle with
      | none => rfl
      | some place => rfl
  | setOutcomeAt index outcome =>
      obtain ⟨inside, target, chosen, rfl⟩ := set_outcome_at_ok game next index outcome run
      rw [perform, setOutcomeAt]
      exact (if_pos inside).trans (bind_eq_ok.mpr ⟨target, chosen, rfl⟩)
  | _ => cases silent

theorem silent_all_renoted (game next : Game) (note : Option Nat) (history : List Operation)
    (silent : ∀ operation ∈ history, operation.isSilent) (run : game.performAll history = .ok next) :
    (game.renoted note).performAll history = .ok (next.renoted note) := by
  induction history generalizing game with
  | nil =>
      cases run
      rfl
  | cons operation rest ih =>
      obtain ⟨between, here, later⟩ := bind_eq_ok.mp run
      obtain ⟨first, others⟩ := List.forall_mem_cons.mp silent
      exact bind_eq_ok.mpr ⟨between.renoted note, silent_renoted game between note operation first here,
        ih between others later⟩

-- Whether the mark of unsaved changes is left to those who save and copy.
def Operation.keepsMark (operation : Operation) : Bool := operation.isEdit || operation = .refresh

theorem perform_keeps_mark (game next : Game) (rounded : game.Rounded) (operation : Operation)
    (keeps : operation.keepsMark) (run : game.perform operation = .ok next) (unmarked : next.unsaved = false) :
    game.unsaved = false := by
  by_cases edit : operation.isEdit
  · cases edit_marks game next operation edit run with
    | touched changed same counted =>
        subst counted
        cases unmarked
    | silent _ same => exact same.unsaved ▸ unmarked
    | idle same => exact same ▸ unmarked
  · have asks : operation = .refresh := by simpa [Operation.keepsMark, edit] using keeps
    subst asks
    cases run
    rw [refresh_notes game rounded] at unmarked
    exact unmarked

theorem perform_all_keeps_mark (game next : Game) (rounded : game.Rounded) (history : List Operation)
    (keep : ∀ operation ∈ history, operation.keepsMark) (run : game.performAll history = .ok next)
    (unmarked : next.unsaved = false) : game.unsaved = false := by
  induction history generalizing game with
  | nil =>
      cases run
      exact unmarked
  | cons operation rest ih =>
      obtain ⟨between, here, later⟩ := bind_eq_ok.mp run
      obtain ⟨keeps, others⟩ := List.forall_mem_cons.mp keep
      exact perform_keeps_mark game between rounded operation keeps here
        (ih between (perform_rounded game between rounded operation here) others later)

-- What is left of a history that left no mark: its silent changes lead to the same game, up to the
-- note of the last refresh.
theorem unmarked_history (game next : Game) (rounded : game.Rounded) (history : List Operation)
    (keep : ∀ operation ∈ history, operation.keepsMark) (run : game.performAll history = .ok next)
    (unmarked : next.unsaved = false) :
    game.performAll (history.filter Operation.isSilent) = .ok (next.renoted game.refreshedAt) := by
  induction history generalizing game with
  | nil =>
      cases run
      rfl
  | cons operation rest ih =>
      obtain ⟨between, here, later⟩ := bind_eq_ok.mp run
      obtain ⟨keeps, others⟩ := List.forall_mem_cons.mp keep
      have sound := perform_rounded game between rounded operation here
      have fresh := perform_all_keeps_mark between next sound rest others later unmarked
      have quiet := ih between sound others later
      by_cases edit : operation.isEdit
      · cases edit_marks game between operation edit here with
        | touched changed same counted =>
            subst counted
            cases fresh
        | silent silent same =>
            rw [List.filter_cons_of_pos silent]
            exact bind_eq_ok.mpr ⟨between, here, same.note ▸ quiet⟩
        | idle same =>
            subst same
            by_cases silent : operation.isSilent
            · rw [List.filter_cons_of_pos silent]
              exact bind_eq_ok.mpr ⟨between, here, quiet⟩
            · rw [List.filter_cons_of_neg silent]
              exact quiet
      · have asks : operation = .refresh := by simpa [Operation.keepsMark, edit] using keeps
        subst asks
        cases here
        rw [refresh_notes game rounded] at quiet
        have silent : ∀ operation ∈ rest.filter Operation.isSilent, operation.isSilent :=
          fun _ member => (List.mem_filter.mp member).2
        have restored := silent_all_renoted _ _ game.refreshedAt _ silent quiet
        exact restored

-- A game that was written and has no mark since has the text that its names, labels and cells written by
-- number gave it, and without any such change the text that was written.
theorem unmarked_game_text (game : Game) (reached : game.Reachable) (writer written : Writer) (places : Nat)
    (saved : Game) (wrote : writer.writeGame places game = .ok (true, written, saved))
    (history : List Operation) (keep : ∀ operation ∈ history, operation ≠ .markSaved ∧ operation ≠ .copy)
    (next : Game) (run : saved.performAll history = .ok next) (unmarked : next.unsaved = false) :
    ∃ text quiet,
      game.toText places = .ok text ∧ written.sink.taken = writer.sink.taken ++ bytesOf text ∧
      saved.performAll (history.filter Operation.isSilent) = .ok quiet ∧
      next.toText places = quiet.toText places ∧
      ((∀ operation ∈ history, ¬operation.isSilent) → next.toText places = .ok text) := by
  obtain ⟨text, shown, taken, rfl⟩ := write_game_takes writer written places game saved wrote
  have rounded : game.markSaved.Rounded := reachable_rounded game reached
  have marks : ∀ operation ∈ history, operation.keepsMark := by
    intro operation member
    obtain ⟨saves, copies⟩ := keep operation member
    cases operation with
    | markSaved => exact absurd rfl saves
    | copy => exact absurd rfl copies
    | _ => rfl
  have quiet := unmarked_history game.markSaved next rounded history marks run unmarked
  refine ⟨text, _, shown, taken, quiet, rfl, ?_⟩
  intro loud
  rw [List.filter_eq_nil_iff.mpr loud] at quiet
  have same : game.markSaved = next.renoted game.refreshedAt := Except.ok.inj quiet
  have written : game.markSaved.toText places = .ok text := shown
  rw [same] at written
  exact written

theorem unmarked_game_text_renamed :
    ∃ written next text quiet,
      (Writer.onto (.empty none)).writeGame 2 (blank [1]) = .ok (true, written, (blank [1]).markSaved) ∧
      (blank [1]).markSaved.performAll [.deleteOutcome ⟨7⟩, .refresh, .setPlayerName 0 "first"] = .ok next ∧
      (blank [1]).toText 2 = .ok text ∧
      (blank [1]).markSaved.performAll [.setPlayerName 0 "first"] = .ok quiet ∧
      next.toText 2 = quiet.toText 2 := by
  obtain ⟨written, wrote⟩ := write_game_unlimited (Writer.onto (.empty none)) rfl 2 (by decide) (blank [1])
  obtain ⟨text, quiet, shown, -, silent, same, -⟩ := unmarked_game_text (blank [1]) ⟨[1], _, [], rfl, rfl⟩
    (Writer.onto (.empty none)) written 2 _ wrote [.deleteOutcome ⟨7⟩, .refresh, .setPlayerName 0 "first"]
    (by decide) _ rfl rfl
  exact ⟨written, _, text, quiet, wrote, rfl, shown, silent, same⟩

-- A player's new name is missing from the file that was written, and there is no mark of it.
theorem renamed_player_unmarked :
    ∃ written next text other,
      (Writer.onto (.empty none)).writeGame 2 (blank [1]) = .ok (true, written, (blank [1]).markSaved) ∧
      (blank [1]).markSaved.performAll [.setPlayerName 0 "first"] = .ok next ∧ next.unsaved = false ∧
      (blank [1]).toText 2 = .ok text ∧ next.toText 2 = .ok other ∧ other ≠ text := by
  obtain ⟨written, wrote⟩ := write_game_unlimited (Writer.onto (.empty none)) rfl 2 (by decide) (blank [1])
  refine ⟨written, _, _, _, wrote, rfl, rfl, rfl, rfl, ?_⟩
  decide +kernel

end Game

end NormalForm
