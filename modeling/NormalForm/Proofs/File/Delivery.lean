import NormalForm.Game.Build
import NormalForm.Proofs.File.Written

/-!
Writing to a sink that may fill up. Pieces written one after another reach the sink as their whole text would
at once: the sink takes as much of the text as it has room for, and the writing fails when that is not all of it.
-/

set_option autoImplicit false

namespace NormalForm

namespace File

/-! The bytes of a text. -/

theorem byte_list_loop (bytes : ByteArray) (place : Nat) (taken : List UInt8) :
    ByteArray.toList.loop bytes place taken = taken.reverse ++ bytes.data.toList.drop place := by
  fun_induction ByteArray.toList.loop bytes place taken with
  | case1 place taken inside ih =>
      have here : bytes.data.toList.drop place = bytes.get! place :: bytes.data.toList.drop (place + 1) := by
        simpa [ByteArray.get!, inside] using List.drop_eq_getElem_cons (l := bytes.data.toList) (i := place) inside
      rw [ih, here, List.reverse_cons, List.append_assoc, List.singleton_append]
  | case2 place taken outside =>
      have none : bytes.data.toList.drop place = [] := List.drop_eq_nil_iff.mpr (Nat.le_of_not_lt outside)
      rw [none, List.append_nil]

theorem byte_list_eq (bytes : ByteArray) : bytes.toList = bytes.data.toList :=
  byte_list_loop bytes 0 []

theorem bytes_of_append (front back : String) : bytesOf (front ++ back) = bytesOf front ++ bytesOf back := by
  simp only [bytesOf, byte_list_eq, String.toUTF8, String.toByteArray_append, ByteArray.toList_data_append]

theorem bytes_of_empty : bytesOf "" = [] := by
  rw [bytesOf, byte_list_eq]
  rfl

/-! A sink takes the front of what it is given. -/

theorem taken_append (taken : Array UInt8) (front back : List UInt8) :
    taken ++ (front ++ back) = taken ++ front ++ back := by
  simp [← Array.toList_inj]

-- Room for so many bytes.
def Sink.Holds (sink : Sink) (bytes : Nat) : Prop := ∀ room, sink.room = some room → bytes ≤ room

theorem write_limited (sink : Sink) (bytes : List UInt8) (room : Nat) (limited : sink.room = some room) :
    sink.write bytes = (decide (bytes.length ≤ room),
      { taken := sink.taken ++ bytes.take room, room := some (room - bytes.length) }) := by
  rw [Sink.write, limited]

theorem write_held (sink : Sink) (bytes : List UInt8) (held : sink.Holds bytes.length) :
    ∃ after, sink.write bytes = (true, after) ∧ after.taken = sink.taken ++ bytes := by
  cases limited : sink.room with
  | none => exact ⟨{ sink with taken := sink.taken ++ bytes }, by rw [Sink.write, limited], rfl⟩
  | some room =>
      have fits := held room limited
      refine ⟨_, (write_limited sink bytes room limited).trans (by rw [decide_eq_true fits]), ?_⟩
      dsimp only
      rw [List.take_of_length_le fits]

-- What is left holds what is still to come.
theorem write_front (sink : Sink) (front : List UInt8) (later : Nat) (held : sink.Holds (front.length + later)) :
    ∃ after, sink.write front = (true, after) ∧ after.Holds later := by
  cases limited : sink.room with
  | none =>
      exact ⟨{ sink with taken := sink.taken ++ front }, by rw [Sink.write, limited], fun room same => by
        cases limited.symm.trans same⟩
  | some room =>
      have fits := held room limited
      refine ⟨_, (write_limited sink front room limited).trans (by rw [decide_eq_true (by omega)]), ?_⟩
      intro left same
      have rest : room - front.length = left := Option.some.inj same
      omega

theorem write_nothing (sink : Sink) : sink.write [] = (true, sink) := by
  obtain ⟨taken, room⟩ := sink
  cases room with
  | none => simp [Sink.write]
  | some room => simp [Sink.write]

-- What is left of the room decides about the second part, and a part that does not fit leaves no room.
theorem write_append (sink : Sink) (front back : List UInt8) : sink.write (front ++ back) =
    if (sink.write front).1 then (sink.write front).2.write back else (false, (sink.write front).2) := by
  obtain ⟨taken, room⟩ := sink
  cases room with
  | none => simp [Sink.write, taken_append]
  | some room =>
      rw [write_limited _ _ room rfl, write_limited _ front room rfl]
      by_cases fits : front.length ≤ room
      · have both : (front ++ back).length ≤ room ↔ back.length ≤ room - front.length := by
          rw [List.length_append]
          omega
        rw [decide_eq_true fits, if_pos rfl, write_limited _ back _ rfl, List.take_append, List.length_append,
          List.take_of_length_le fits, Nat.sub_sub]
        simp [← both, taken_append]
      · have beyond : ¬ (front ++ back).length ≤ room := by
          rw [List.length_append]
          omega
        have none : room - (front ++ back).length = room - front.length := by
          rw [List.length_append]
          omega
        rw [decide_eq_false fits, if_neg Bool.false_ne_true, decide_eq_false beyond, none,
          List.take_append_of_le_length (Nat.le_of_not_le fits)]

/-! Pieces. -/

-- The induction is on the pieces: each is given to the sink that the pieces before it have left.
theorem write_all_at_once (sink : Sink) (texts : List String) :
    sink.writeAll (texts.map .ok) = .ok (sink.write (bytesOf (String.join texts))) := by
  induction texts generalizing sink with
  | nil => rw [String.join_nil, bytes_of_empty, write_nothing, List.map_nil, Sink.writeAll]
  | cons text texts ih =>
      rw [String.join_cons, bytes_of_append, write_append, List.map_cons, Sink.writeAll, ok_bind]
      cases written : sink.write (bytesOf text) with
      | mk whole between =>
          cases whole with
          | false => rfl
          | true => exact ih between

theorem pieces_of_text (game : Game) (places : Nat) (text : String) (shown : game.toText places = .ok text) :
    ∃ texts, pieces places game = texts.map .ok ∧ text = String.join texts := by
  obtain ⟨texts, made, same⟩ := bind_eq_ok.mp shown
  cases same
  refine ⟨texts, ?_, rfl⟩
  have each := map_m_each (pieces places game) id texts made
  rw [← List.forall₂_eq_eq_eq, List.forall₂_map_right_iff]
  exact each

-- A game is written as its text is, at once; the precision is the one from before, and only a whole text counts.
theorem write_game_at_once (writer : Writer) (places : Nat) (game : Game) (text : String)
    (shown : game.toText places = .ok text) : writer.writeGame places game =
      .ok ((writer.sink.write (bytesOf text)).1, { writer with sink := (writer.sink.write (bytesOf text)).2 },
        if (writer.sink.write (bytesOf text)).1 then game.markSaved else game) := by
  obtain ⟨texts, same, rfl⟩ := pieces_of_text game places text shown
  rw [Writer.writeGame, Writer.emit, Writer.setPrecision, same, write_all_at_once]
  rfl

-- A piece that cannot be made is reached where there is room for those before it.
theorem write_all_faults (sink : Sink) (texts : List String) (fault : Fault) (rest : List (Except Fault String))
    (held : sink.Holds (bytesOf (String.join texts)).length) :
    sink.writeAll (texts.map .ok ++ .error fault :: rest) = .error fault := by
  induction texts generalizing sink with
  | nil => rfl
  | cons text texts ih =>
      rw [String.join_cons, bytes_of_append, List.length_append] at held
      obtain ⟨between, written, left⟩ := write_front sink (bytesOf text) _ held
      rw [List.map_cons, List.cons_append, Sink.writeAll, ok_bind, written]
      exact ih between left

end File

namespace Game

open File

-- What a sink takes of a game is a front of its text, whether or not that is the whole. Below the limit of
-- places there is always a text.
theorem short_write_takes_a_front (game : Game) (places : Nat) :
    (places < 65536 → ∃ text, game.toText places = .ok text) ∧
    ∀ text, game.toText places = .ok text → ∀ (writer : Writer) (room : Nat), writer.sink.room = some room →
      ∃ written after,
        writer.writeGame places game = .ok (decide ((bytesOf text).length ≤ room), written, after) ∧
        written.sink.taken = writer.sink.taken ++ (bytesOf text).take (min room (bytesOf text).length) ∧
        written.precision = writer.precision ∧
        ((bytesOf text).length ≤ room → after = { game with unsaved := false }) ∧
        (room < (bytesOf text).length → after = game) ∧
        ∀ later : Writer, later.sink.Holds (bytesOf text).length → ∃ rewritten,
          later.writeGame places after = .ok (true, rewritten, { game with unsaved := false }) ∧
          rewritten.sink.taken = later.sink.taken ++ bytesOf text := by
  refine ⟨fun within => to_text_succeeds places (Nat.le_of_lt_succ within) game, ?_⟩
  intro text shown writer room limited
  have wrote := write_game_at_once writer places game text shown
  have front : (bytesOf text).take room = (bytesOf text).take (min room (bytesOf text).length) :=
    List.take_eq_take_min
  rw [write_limited writer.sink (bytesOf text) room limited, front] at wrote
  refine ⟨_, _, wrote, rfl, rfl, ?_, ?_, ?_⟩
  · intro fits
    exact if_pos (decide_eq_true fits)
  · intro short
    exact if_neg (by simpa using short)
  · intro later held
    obtain ⟨sink, taken, bytes⟩ := write_held later.sink (bytesOf text) held
    -- The mark of unsaved changes is no part of the text.
    have again : ∀ saved : Bool, (if saved then game.markSaved else game).toText places = .ok text ∧
        (if saved then game.markSaved else game).markSaved = game.markSaved := fun saved => by
      cases saved with
      | false => exact ⟨shown, rfl⟩
      | true => exact ⟨shown, rfl⟩
    obtain ⟨reshown, marked⟩ := again (decide ((bytesOf text).length ≤ room))
    refine ⟨{ later with sink }, (write_game_at_once later places _ text reshown).trans ?_, bytes⟩
    rw [taken]
    exact congrArg (fun saved => Except.ok (true, _, saved)) marked

theorem short_write_takes_a_front_titled : ∃ text, ((blank [1]).setTitle "t").toText 2 = .ok text ∧
    ∃ written, (⟨.empty (some 10), 4⟩ : Writer).writeGame 2 ((blank [1]).setTitle "t") =
        .ok (false, written, (blank [1]).setTitle "t") ∧
      written.sink.taken = (#[] : Array UInt8) ++ (bytesOf text).take 10 ∧ written.precision = 4 ∧
      ∃ rewritten, (⟨.empty none, 4⟩ : Writer).writeGame 2 ((blank [1]).setTitle "t") =
          .ok (true, rewritten, ((blank [1]).setTitle "t").markSaved) ∧
          rewritten.sink.taken = (#[] : Array UInt8) ++ bytesOf text := by
  have shown : ((blank [1]).setTitle "t").toText 2 =
      .ok "NFG 1 R \"t\" \x7b \"1\" \x7d\n\n\x7b \x7b \"1\" \x7d\n\x7d\n\"\"\n\n\x7b\n\x7d\n0 \n" := rfl
  have size : (bytesOf "NFG 1 R \"t\" \x7b \"1\" \x7d\n\n\x7b \x7b \"1\" \x7d\n\x7d\n\"\"\n\n\x7b\n\x7d\n0 \n").length =
      44 := by decide +kernel
  obtain ⟨written, after, wrote, taken, precision, -, kept, later⟩ :=
    (short_write_takes_a_front ((blank [1]).setTitle "t") 2).2 _ shown ⟨.empty (some 10), 4⟩ 10 rfl
  rw [size] at wrote taken kept
  obtain rfl := kept (by decide)
  obtain ⟨rewritten, rewrote, bytes⟩ := later ⟨.empty none, 4⟩ (fun room same => by cases same)
  exact ⟨_, shown, written, wrote, taken, precision, rewritten, rewrote, bytes⟩

/-! A half has one decimal place, but not every number of places can be laid out. -/

namespace Half

def game : Game := ((blank [1]).fill 0 fun _ => [1 / 2]).markSaved

theorem pieces_eq : pieces 65536 game =
    (headPieces game).map .ok ++ .error .tooManyPlaces :: (cellPieces game).map .ok := by decide +kernel

theorem held : (Sink.empty (some 1000)).Holds (bytesOf (String.join (headPieces game))).length := by
  intro room same
  cases same
  decide +kernel

end Half

-- There is no answer whatever room is left, and one place fewer gives a text.
theorem wide_write_has_no_answer : Game.ofRows 0 [1] [[1 / 2]] = .ok (.ok Half.game) ∧
    (∀ answer, (Writer.onto (.empty (some 1000))).writeGame 65536 Half.game ≠ .ok answer) ∧
    (∀ text, Half.game.toText 65536 ≠ .ok text) ∧
    Half.game.toText 65535 = .ok ("NFG 1 R \"UNTITLED\" \x7b \"1\" \x7d\n\n\x7b \x7b \"1\" \x7d\n\x7d\n" ++
      "\"\"\n\n\x7b\n\x7b \"\" 0.5 \x7d\n\x7d\n1 \n") := by
  refine ⟨rfl, ?_, ?_, by decide +kernel⟩
  · intro answer wrote
    obtain ⟨_, emitted, -⟩ := bind_eq_ok.mp wrote
    obtain ⟨_, written, -⟩ := bind_eq_ok.mp emitted
    rw [Writer.setPrecision, Half.pieces_eq] at written
    cases (write_all_faults _ _ _ _ Half.held).symm.trans written
  · have faults : Half.game.toText 65536 = .error .tooManyPlaces := by decide +kernel
    intro text shown
    cases faults.symm.trans shown

end Game

end NormalForm
