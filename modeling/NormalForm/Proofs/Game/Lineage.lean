import NormalForm.Game.Workspace
import NormalForm.Proofs.Game.Handles

/-!
Histories of several games side by side: games are loaded, copied and changed in any order, and all draw
their handles from one supply. What was created, copied and deleted is logged, and the log alone tells which
handles resolve in which game.
-/

set_option autoImplicit false

namespace NormalForm.Workspace

/-! Histories. -/

inductive Source where
  | blank (dims : Dimensions)
  | text (content : String)
  | table (dims : Dimensions) (rows : List (List Rat))
  | random (dims : Dimensions) (seed : UInt64) (places : Nat)
  | sample (kind : Sample)

-- The game that is loaded, unless the source is refused.
def Source.game? (first : Nat) : Source → Option Game
  | .blank dims => (Game.ofDimensions dims).toOption
  | .text content => (Game.parse first content).toOption
  | .table dims rows => (Game.ofRows first dims rows).toOption.bind Except.toOption
  | .random dims seed places => (Game.random first dims seed places).toOption
  | .sample kind => (kind.game first).toOption

-- A change of a game that leaves alone which outcomes there are.
def Edit : Type := { operation : Game.Operation // operation.keepsHandles }

inductive Operation where
  | load (source : Source)
  | copy (index : Nat)
  | newOutcome (index : Nat)
  | deleteOutcome (index : Nat) (handle : Handle)
  | edit (index : Nat) (change : Edit)
  -- Handles were drawn for a game that could not be loaded to its end.
  | abandon (count : Nat)

-- The game that an operation may change.
def Operation.subject? : Operation → Option Nat
  | .load _ => none
  | .copy _ => none
  | .newOutcome index => some index
  | .deleteOutcome index _ => some index
  | .edit index _ => some index
  | .abandon _ => none

-- Games are named by their place in the workspace.
inductive Event where
  | created (index : Nat) (handle : Handle)
  | copied (source copy : Nat)
  | deleted (index : Nat) (handle : Handle)
  | abandoned (handle : Handle)

-- The workspace afterwards and what is logged; an operation that is refused changes nothing.
def perform (workspace : Workspace) : Operation → Workspace × List Event
  | .load source =>
      match source.game? workspace.nextKey with
      | some game => (workspace.add game, game.handles.map (.created workspace.games.size))
      | none => (workspace, [])
  | .copy index =>
      match workspace.copy index with
      | .ok next => (next, [.copied index workspace.games.size])
      | .error _ => (workspace, [])
  | .newOutcome index =>
      match workspace.newOutcome index with
      | .ok (handle, next) => (next, [.created index handle])
      | .error _ => (workspace, [])
  | .deleteOutcome index handle =>
      match workspace.game index with
      | .ok game =>
          let (existed, next) := game.deleteOutcome handle
          (workspace.put index next, if existed then [.deleted index handle] else [])
      | .error _ => (workspace, [])
  | .edit index change =>
      match (workspace.game index).bind fun game => game.perform change.val with
      | .ok next => (workspace.put index next, [])
      | .error _ => (workspace, [])
  | .abandon count =>
      ({ workspace with nextKey := workspace.nextKey + count },
        (List.range' workspace.nextKey count).map fun key => .abandoned ⟨key⟩)

-- A workspace and what has been logged so far, oldest first.
structure Trace where
  workspace : Workspace
  log : List Event

def Trace.step (trace : Trace) (operation : Operation) : Trace :=
  let (workspace, events) := trace.workspace.perform operation
  ⟨workspace, trace.log ++ events⟩

def run (operations : List Operation) : Trace := operations.foldl Trace.step ⟨.empty, []⟩

/-! What a log says of a handle. -/

def handed (log : List Event) : List Handle :=
  log.filterMap fun event => match event with
    | .created _ handle => some handle
    | .abandoned handle => some handle
    | .copied _ _ => none
    | .deleted _ _ => none

-- From one game to another by way of copies, without being deleted in the game where it is at the time.
inductive Kept (handle : Handle) : Nat → List Event → Nat → Prop where
  | nil (index : Nat) : Kept handle index [] index
  | stays (origin index : Nat) (event : Event) (later : List Event) (spared : event ≠ .deleted origin handle)
      (kept : Kept handle origin later index) : Kept handle origin (event :: later) index
  | copied (origin copy index : Nat) (later : List Event) (kept : Kept handle copy later index) :
      Kept handle origin (.copied origin copy :: later) index

-- Created in this game or in one that it descends from, and kept since.
def Lives (log : List Event) (handle : Handle) (index : Nat) : Prop :=
  ∃ before origin later, log = before ++ .created origin handle :: later ∧ Kept handle origin later index

theorem kept_nil (handle : Handle) (origin index : Nat) : Kept handle origin [] index ↔ origin = index := by
  constructor
  · intro kept
    cases kept
    rfl
  · rintro rfl
    exact .nil origin

theorem kept_cons (handle : Handle) (origin index : Nat) (event : Event) (later : List Event) :
    Kept handle origin (event :: later) index ↔ (event ≠ .deleted origin handle ∧ Kept handle origin later index) ∨
      ∃ copy, event = .copied origin copy ∧ Kept handle copy later index := by
  constructor
  · intro kept
    cases kept with
    | stays _ _ _ _ spared kept => exact .inl ⟨spared, kept⟩
    | copied _ copy _ _ kept => exact .inr ⟨copy, rfl, kept⟩
  · rintro (⟨spared, kept⟩ | ⟨copy, rfl, kept⟩)
    · exact .stays origin index event later spared kept
    · exact .copied origin copy index later kept

-- The last event is the first one that is not yet passed; the induction is on those before it.
theorem kept_snoc (handle : Handle) (origin index : Nat) (later : List Event) (event : Event) :
    Kept handle origin (later ++ [event]) index ↔
      (Kept handle origin later index ∧ event ≠ .deleted index handle) ∨
        ∃ source, event = .copied source index ∧ Kept handle origin later source := by
  induction later generalizing origin with
  | nil =>
      simp only [List.nil_append, kept_cons, kept_nil]
      constructor
      · rintro (⟨spared, rfl⟩ | ⟨copy, rfl, rfl⟩)
        · exact .inl ⟨rfl, spared⟩
        · exact .inr ⟨origin, rfl, rfl⟩
      · rintro (⟨rfl, spared⟩ | ⟨source, rfl, rfl⟩)
        · exact .inl ⟨spared, rfl⟩
        · exact .inr ⟨index, rfl, rfl⟩
  | cons first later ih =>
      simp only [List.cons_append, kept_cons, ih]
      constructor
      · rintro (⟨spared, ⟨kept, last⟩ | ⟨source, same, kept⟩⟩ | ⟨copy, moved, ⟨kept, last⟩ | ⟨source, same, kept⟩⟩)
        · exact .inl ⟨.inl ⟨spared, kept⟩, last⟩
        · exact .inr ⟨source, same, .inl ⟨spared, kept⟩⟩
        · exact .inl ⟨.inr ⟨copy, moved, kept⟩, last⟩
        · exact .inr ⟨source, same, .inr ⟨copy, moved, kept⟩⟩
      · rintro (⟨⟨spared, kept⟩ | ⟨copy, moved, kept⟩, last⟩ | ⟨source, same, ⟨spared, kept⟩ | ⟨copy, moved, kept⟩⟩)
        · exact .inl ⟨spared, .inl ⟨kept, last⟩⟩
        · exact .inr ⟨copy, moved, .inl ⟨kept, last⟩⟩
        · exact .inl ⟨spared, .inr ⟨source, same, kept⟩⟩
        · exact .inr ⟨copy, moved, .inr ⟨source, same, kept⟩⟩

theorem lives_snoc (log : List Event) (event : Event) (handle : Handle) (index : Nat) :
    Lives (log ++ [event]) handle index ↔ event = .created index handle ∨
      (Lives log handle index ∧ event ≠ .deleted index handle) ∨
        ∃ source, event = .copied source index ∧ Lives log handle source := by
  constructor
  · rintro ⟨before, origin, later, split, kept⟩
    rcases List.eq_nil_or_concat later with rfl | ⟨passed, last, rfl⟩
    · obtain ⟨-, same⟩ := List.append_inj' split rfl
      obtain rfl := (kept_nil handle origin index).mp kept
      exact .inl (List.singleton_inj.mp same)
    · rw [List.concat_eq_append, ← List.cons_append, ← List.append_assoc] at split
      rw [List.concat_eq_append] at kept
      obtain ⟨rfl, same⟩ := List.append_inj' split rfl
      obtain rfl := List.singleton_inj.mp same
      rcases (kept_snoc handle origin index passed event).mp kept with ⟨kept, spared⟩ | ⟨source, same, kept⟩
      · exact .inr (.inl ⟨⟨before, origin, passed, rfl, kept⟩, spared⟩)
      · exact .inr (.inr ⟨source, same, before, origin, passed, rfl, kept⟩)
  · rintro (rfl | ⟨⟨before, origin, later, rfl, kept⟩, spared⟩ | ⟨source, same, before, origin, later, rfl, kept⟩)
    · exact ⟨log, index, [], rfl, .nil index⟩
    · refine ⟨before, origin, later ++ [event], by simp, ?_⟩
      exact (kept_snoc handle origin index later event).mpr (.inl ⟨kept, spared⟩)
    · refine ⟨before, origin, later ++ [event], by simp, ?_⟩
      exact (kept_snoc handle origin index later event).mpr (.inr ⟨source, same, kept⟩)

theorem lives_created (log : List Event) (place : Nat) (handles : List Handle) (handle : Handle) (index : Nat) :
    Lives (log ++ handles.map (.created place)) handle index ↔
      Lives log handle index ∨ (index = place ∧ handle ∈ handles) := by
  induction handles generalizing log with
  | nil => simp
  | cons first handles ih =>
      have step := lives_snoc log (.created place first) handle index
      simp only [reduceCtorEq, ne_eq, not_false_eq_true, and_true, false_and, exists_false, or_false,
        Event.created.injEq] at step
      rw [List.map_cons, List.append_cons, ih, step, List.mem_cons]
      constructor
      · rintro ((⟨rfl, rfl⟩ | lives) | ⟨rfl, member⟩)
        · exact .inr ⟨rfl, .inl rfl⟩
        · exact .inl lives
        · exact .inr ⟨rfl, .inr member⟩
      · rintro (lives | ⟨rfl, rfl | member⟩)
        · exact .inl (.inr lives)
        · exact .inl (.inl ⟨rfl, rfl⟩)
        · exact .inr ⟨rfl, member⟩

theorem lives_abandoned (log : List Event) (keys : List Nat) (handle : Handle) (index : Nat) :
    Lives (log ++ keys.map fun key => .abandoned ⟨key⟩) handle index ↔ Lives log handle index := by
  induction keys generalizing log with
  | nil => simp
  | cons key keys ih =>
      have step := lives_snoc log (.abandoned ⟨key⟩) handle index
      simp only [reduceCtorEq, ne_eq, not_false_eq_true, and_true, false_and, exists_false, or_false, false_or] at step
      rw [List.map_cons, List.append_cons, ih, step]

theorem lives_handed (log : List Event) (handle : Handle) (index : Nat) (lives : Lives log handle index) :
    handle ∈ handed log := by
  obtain ⟨before, origin, later, rfl, -⟩ := lives
  exact List.mem_filterMap.mpr ⟨.created origin handle, by simp, rfl⟩

/-! The invariant of every history. -/

theorem source_numbered (first : Nat) (source : Source) (game : Game) (made : source.game? first = some game) :
    game.NumberedFrom first := by
  cases source with
  | blank dims =>
      obtain ⟨-, rfl⟩ := Game.of_dimensions_ok dims game ((to_option_eq_some _ _).mp made)
      rfl
  | text content => exact Game.parse_numbered first content game ((to_option_eq_some _ _).mp made)
  | table dims rows =>
      obtain ⟨loaded, known, read⟩ := Option.bind_eq_some_iff.mp made
      obtain rfl := (to_option_eq_some _ _).mp read
      exact Game.of_rows_numbered first dims rows game ((to_option_eq_some _ _).mp known)
  | random dims seed places =>
      exact Game.random_numbered first dims seed places game ((to_option_eq_some _ _).mp made)
  | sample kind => exact kind.sample_numbered first game ((to_option_eq_some _ _).mp made)

theorem handed_append (log more : List Event) : handed (log ++ more) = handed log ++ handed more :=
  List.filterMap_append

theorem handed_created (place : Nat) (handles : List Handle) : handed (handles.map (.created place)) = handles := by
  rw [handed, List.filterMap_map]
  exact List.filterMap_some

theorem game_eq_ok (workspace : Workspace) (index : Nat) (game : Game) :
    workspace.game index = .ok game ↔ workspace.games[index]? = some game := by
  rw [Workspace.game, entry_eq_ok, Array.getElem?_toList]

theorem new_outcome_returns (workspace : Workspace) (index : Nat) (game : Game)
    (known : workspace.games[index]? = some game) : workspace.newOutcome index = .ok (⟨workspace.nextKey⟩,
      { workspace.put index (game.newOutcome ⟨workspace.nextKey⟩) with nextKey := workspace.nextKey + 1 }) := by
  rw [newOutcome, (game_eq_ok workspace index game).mpr known]
  rfl

theorem put_found (workspace : Workspace) (index : Nat) (game next : Game)
    (known : workspace.games[index]? = some game) (other : Nat) :
    (workspace.put index next).games[other]? = if index = other then some next else workspace.games[other]? := by
  obtain ⟨inside, -⟩ := Array.getElem?_eq_some_iff.mp known
  rw [put, Array.getElem?_setIfInBounds, if_pos inside]

theorem put_size (workspace : Workspace) (index : Nat) (next : Game) :
    (workspace.put index next).games.size = workspace.games.size := Array.size_setIfInBounds

structure Traced (trace : Trace) : Prop where
  positive : 0 < trace.workspace.nextKey
  handed : handed trace.log = (List.range' 1 (trace.workspace.nextKey - 1)).map Handle.mk
  distinct : ∀ (index : Nat) game, trace.workspace.games[index]? = some game → game.handles.Nodup
  lives : ∀ handle index, Lives trace.log handle index ↔
    ∃ game, trace.workspace.games[index]? = some game ∧ handle ∈ game.handles
  gone : ∀ index handle, .deleted index handle ∈ trace.log →
    handle ∈ Workspace.handed trace.log ∧ index < trace.workspace.games.size ∧ ¬ Lives trace.log handle index

namespace Traced

variable {workspace : Workspace} {log : List Event} (traced : Traced ⟨workspace, log⟩)

include traced

-- Keys that are drawn next follow those that are drawn.
theorem handed_more (count : Nat) (drawn : List Event)
    (next : Workspace.handed drawn = (List.range' workspace.nextKey count).map Handle.mk) :
    Workspace.handed (log ++ drawn) = (List.range' 1 (workspace.nextKey + count - 1)).map Handle.mk := by
  have positive : 0 < workspace.nextKey := traced.positive
  have handed : Workspace.handed log = (List.range' 1 (workspace.nextKey - 1)).map Handle.mk := traced.handed
  have last : 1 + (workspace.nextKey - 1) = workspace.nextKey := by omega
  have count : workspace.nextKey - 1 + count = workspace.nextKey + count - 1 := by omega
  rw [handed_append, handed, next, ← List.map_append, ← count, ← List.range'_append_1, last]

theorem unseen (key : Nat) (later : workspace.nextKey ≤ key) : (⟨key⟩ : Handle) ∉ Workspace.handed log := by
  have handed : Workspace.handed log = (List.range' 1 (workspace.nextKey - 1)).map Handle.mk := traced.handed
  rw [handed]
  intro member
  obtain ⟨other, inside, same⟩ := List.mem_map.mp member
  have bounds := List.mem_range'_1.mp inside
  have equal : other = key := Handle.mk.inj same
  omega

theorem still_gone (next : Workspace) (drawn : List Event) (index : Nat) (handle : Handle)
    (old : .deleted index handle ∈ log) (grown : workspace.games.size ≤ next.games.size)
    (quiet : handle ∈ Workspace.handed log → index < workspace.games.size →
      Lives (log ++ drawn) handle index → Lives log handle index) :
    handle ∈ Workspace.handed (log ++ drawn) ∧ index < next.games.size ∧ ¬ Lives (log ++ drawn) handle index := by
  obtain ⟨seen, inside, dead⟩ := traced.gone index handle old
  rw [handed_append]
  exact ⟨List.mem_append_left _ seen, Nat.lt_of_lt_of_le inside grown, fun lives => dead (quiet seen inside lives)⟩

theorem loaded (game : Game) (numbered : game.NumberedFrom workspace.nextKey) :
    Traced ⟨workspace.add game, log ++ game.handles.map (.created workspace.games.size)⟩ where
  positive := Nat.add_pos_left traced.positive _
  handed := traced.handed_more game.outcomes.size _ ((handed_created _ _).trans numbered)
  distinct := by
    intro index other known
    rw [add, Array.getElem?_push] at known
    split at known
    · obtain rfl := Option.some.inj known
      rw [numbered]
      exact (List.nodup_range' 1).map fun _ _ same => Handle.mk.inj same
    · exact traced.distinct index other known
  lives := by
    intro handle index
    rw [lives_created, traced.lives, add]
    dsimp only
    simp only [Array.getElem?_push]
    by_cases last : index = workspace.games.size
    · subst last
      simp
    · simp [last]
  gone := by
    intro index handle deleted
    rcases List.mem_append.mp deleted with old | new
    · refine traced.still_gone _ _ index handle old (Array.size_push _ ▸ Nat.le_succ _) fun _ inside lives => ?_
      rcases (lives_created log _ _ handle index).mp lives with lives | ⟨rfl, -⟩
      · exact lives
      · exact absurd inside (Nat.lt_irrefl _)
    · obtain ⟨other, -, same⟩ := List.mem_map.mp new
      cases same

theorem copied (index : Nat) (game : Game) (known : workspace.games[index]? = some game) :
    Traced ⟨{ workspace with games := workspace.games.push game.copy },
      log ++ [.copied index workspace.games.size]⟩ where
  positive := traced.positive
  handed := by
    rw [handed_append]
    exact (List.append_nil _).trans traced.handed
  distinct := by
    intro place other found
    simp only [Array.getElem?_push] at found
    split at found
    · obtain rfl := Option.some.inj found
      exact traced.distinct index game known
    · exact traced.distinct place other found
  lives := by
    intro handle place
    have older := traced.lives handle place
    have source := traced.lives handle index
    simp only [lives_snoc, reduceCtorEq, false_or, ne_eq, not_false_eq_true, and_true, Event.copied.injEq,
      Array.getElem?_push]
    dsimp only at older source
    by_cases last : place = workspace.games.size
    · subst last
      simp only [Array.getElem?_size, reduceCtorEq, false_and, exists_false, iff_false] at older
      simp only [older, and_true, false_or, exists_eq_left', source, known, if_true, Option.some.injEq]
      rfl
    · have other : ¬ workspace.games.size = place := fun same => last same.symm
      simp only [older, other, and_false, false_and, exists_false, or_false, if_neg last]
  gone := by
    intro place handle deleted
    rcases List.mem_append.mp deleted with old | new
    · refine traced.still_gone _ _ place handle old (Array.size_push _ ▸ Nat.le_succ _) fun _ inside lives => ?_
      rcases (lives_snoc log _ handle place).mp lives with same | ⟨lives, -⟩ | ⟨source, same, -⟩
      · cases same
      · exact lives
      · cases same
        exact absurd inside (Nat.lt_irrefl _)
    · cases List.mem_singleton.mp new

theorem edited (index : Nat) (game next : Game) (known : workspace.games[index]? = some game)
    (same : next.handles = game.handles) : Traced ⟨workspace.put index next, log⟩ where
  positive := traced.positive
  handed := traced.handed
  distinct := by
    intro place other found
    dsimp only at found
    rw [put_found workspace index game next known] at found
    split at found
    · obtain rfl := Option.some.inj found
      rw [same]
      exact traced.distinct index game known
    · exact traced.distinct place other found
  lives := by
    intro handle place
    rw [traced.lives]
    dsimp only
    rw [put_found workspace index game next known]
    split
    · rename_i here
      subst here
      simp [known, same]
    · rfl
  gone := by
    intro place handle deleted
    rw [put_size]
    exact traced.gone place handle deleted

theorem created (index : Nat) (game : Game) (known : workspace.games[index]? = some game) :
    Traced ⟨{ workspace.put index (game.newOutcome ⟨workspace.nextKey⟩) with nextKey := workspace.nextKey + 1 },
      log ++ [.created index ⟨workspace.nextKey⟩]⟩ where
  positive := Nat.succ_pos _
  handed := traced.handed_more 1 _ rfl
  distinct := by
    intro place other found
    dsimp only at found
    rw [put_found workspace index game _ known] at found
    split at found
    · obtain rfl := Option.some.inj found
      have fresh : (⟨workspace.nextKey⟩ : Handle) ∉ game.handles := fun member =>
        traced.unseen _ (Nat.le_refl _) (lives_handed log _ index ((traced.lives _ index).mpr ⟨game, known, member⟩))
      rw [Game.new_outcome_handles, List.nodup_append_comm]
      exact List.nodup_cons.mpr ⟨fresh, traced.distinct index game known⟩
    · exact traced.distinct place other found
  lives := by
    intro handle place
    have older := traced.lives handle place
    simp only [lives_snoc, Event.created.injEq, reduceCtorEq, ne_eq, not_false_eq_true, and_true, false_and,
      exists_false, or_false]
    dsimp only at older ⊢
    rw [put_found workspace index game _ known, older]
    split
    · rename_i here
      subst here
      simp only [known, Option.some.injEq, exists_eq_left', Game.new_outcome_handles, List.mem_append,
        List.mem_singleton, true_and]
      rw [or_comm, eq_comm]
    · rename_i other
      simp only [other, false_and, false_or]
  gone := by
    intro place handle deleted
    rcases List.mem_append.mp deleted with old | new
    · refine traced.still_gone _ _ place handle old (Nat.le_of_eq (put_size workspace index _).symm)
        fun seen _ lives => ?_
      rcases (lives_snoc log _ handle place).mp lives with same | ⟨lives, -⟩ | ⟨source, same, -⟩
      · cases same
        exact absurd seen (traced.unseen _ (Nat.le_refl _))
      · exact lives
      · cases same
    · cases List.mem_singleton.mp new

theorem deleted (index : Nat) (game next : Game) (known : workspace.games[index]? = some game) (handle : Handle)
    (member : handle ∈ game.handles) (left : next.handles = game.handles.filter fun other => other != handle) :
    Traced ⟨workspace.put index next, log ++ [.deleted index handle]⟩ where
  positive := traced.positive
  handed := by
    rw [handed_append]
    exact (List.append_nil _).trans traced.handed
  distinct := by
    intro place other found
    dsimp only at found
    rw [put_found workspace index game next known] at found
    split at found
    · obtain rfl := Option.some.inj found
      rw [left]
      exact (traced.distinct index game known).filter _
    · exact traced.distinct place other found
  lives := by
    intro other place
    have older := traced.lives other place
    simp only [lives_snoc, reduceCtorEq, false_and, exists_false, or_false, false_or, ne_eq, Event.deleted.injEq]
    dsimp only at older ⊢
    rw [put_found workspace index game next known, older]
    split
    · rename_i here
      subst here
      simp only [known, Option.some.injEq, exists_eq_left', left, List.mem_filter, bne_iff_ne, true_and, ne_eq,
        eq_comm (a := other)]
    · rename_i elsewhere
      simp only [elsewhere, false_and, not_false_eq_true, and_true]
  gone := by
    intro place other removed
    rcases List.mem_append.mp removed with old | new
    · refine traced.still_gone _ _ place other old (Nat.le_of_eq (put_size workspace index _).symm) fun _ _ lives => ?_
      rcases (lives_snoc log _ other place).mp lives with same | ⟨lives, -⟩ | ⟨source, same, -⟩
      · cases same
      · exact lives
      · cases same
    · cases List.mem_singleton.mp new
      obtain ⟨inside, -⟩ := Array.getElem?_eq_some_iff.mp known
      have before := (traced.lives handle index).mpr ⟨game, known, member⟩
      rw [put_size, handed_append]
      refine ⟨List.mem_append_left _ (lives_handed log handle index before), inside, ?_⟩
      rw [lives_snoc]
      rintro (same | ⟨-, spared⟩ | ⟨source, same, -⟩)
      · cases same
      · exact spared rfl
      · cases same

theorem abandoned (count : Nat) : Traced ⟨{ workspace with nextKey := workspace.nextKey + count },
    log ++ (List.range' workspace.nextKey count).map fun key => .abandoned ⟨key⟩⟩ where
  positive := Nat.add_pos_left traced.positive _
  handed := by
    refine traced.handed_more count _ ?_
    rw [Workspace.handed, List.filterMap_map]
    exact congrFun List.filterMap_eq_map _
  distinct := traced.distinct
  lives := by
    intro handle index
    rw [lives_abandoned]
    exact traced.lives handle index
  gone := by
    intro index handle deleted
    rcases List.mem_append.mp deleted with old | new
    · exact traced.still_gone _ _ index handle old (Nat.le_refl _) fun _ _ => (lives_abandoned log _ handle index).mp
    · obtain ⟨key, -, same⟩ := List.mem_map.mp new
      cases same

theorem step (operation : Operation) : Traced (Trace.step ⟨workspace, log⟩ operation) := by
  have unchanged : Traced ⟨workspace, log ++ []⟩ := (List.append_nil log).symm ▸ traced
  rw [Trace.step]
  dsimp only
  cases operation with
  | load source =>
      rw [perform]
      cases made : source.game? workspace.nextKey with
      | none => exact unchanged
      | some game => exact traced.loaded game (source_numbered _ source game made)
  | copy index =>
      rw [perform, copy]
      cases held : workspace.game index with
      | error fault => exact unchanged
      | ok game => exact traced.copied index game ((game_eq_ok workspace index game).mp held)
  | newOutcome index =>
      rw [perform, newOutcome]
      cases held : workspace.game index with
      | error fault => exact unchanged
      | ok game => exact traced.created index game ((game_eq_ok workspace index game).mp held)
  | deleteOutcome index handle =>
      rw [perform]
      cases held : workspace.game index with
      | error fault => exact unchanged
      | ok game =>
          have known := (game_eq_ok workspace index game).mp held
          obtain ⟨existed, left⟩ := game.delete_outcome_handles (traced.distinct index game known) handle
          dsimp only
          split
          · rename_i member
            exact traced.deleted index game _ known handle (existed.mp member) left
          · rename_i absent
            rw [List.append_nil]
            refine traced.edited index game _ known (left.trans (List.filter_eq_self.mpr fun other member => ?_))
            simpa using fun same : other = handle => absent (existed.mpr (same ▸ member))
  | edit index change =>
      rw [perform]
      cases held : workspace.game index with
      | error fault => exact unchanged
      | ok game =>
          have known := (game_eq_ok workspace index game).mp held
          cases run : game.perform change.val with
          | error fault => simpa [Except.bind, run] using traced
          | ok next =>
              have kept := game.perform_keeps_handles next change.val change.property run
              simpa [Except.bind, run] using traced.edited index game next known kept
  | abandon count => exact traced.abandoned count

end Traced

theorem run_traced (operations : List Operation) : Traced (run operations) := by
  have empty : Traced ⟨.empty, []⟩ := by
    refine ⟨Nat.zero_lt_one, rfl, ?_, ?_, nofun⟩
    · intro index game known
      cases known
    · intro handle index
      constructor
      · rintro ⟨before, origin, later, split, -⟩
        cases before <;> cases split
      · rintro ⟨game, known, -⟩
        cases known
  induction operations using List.reverseRecOn with
  | nil => exact empty
  | append_singleton operations operation ih =>
      rw [run, List.foldl_append]
      exact ih.step operation

-- Only the game that an operation is about can change.
theorem perform_elsewhere (workspace : Workspace) (operation : Operation) (index : Nat) (game : Game)
    (known : workspace.games[index]? = some game) (other : operation.subject? ≠ some index) :
    (workspace.perform operation).1.games[index]? = some game := by
  have put_other (place : Nat) (next : Game) (different : some place ≠ some index) :
      (workspace.put place next).games[index]? = some game := by
    rw [put, Array.getElem?_setIfInBounds, if_neg fun same => different (congrArg some same)]
    exact known
  have push_kept (next : Game) : (workspace.games.push next)[index]? = some game := by
    rw [Array.getElem?_push, if_neg, known]
    rintro rfl
    simp at known
  cases operation with
  | load source =>
      rw [perform]
      split
      · exact push_kept _
      · exact known
  | copy place =>
      rw [perform, copy]
      cases workspace.game place with
      | error fault => exact known
      | ok source => exact push_kept _
  | newOutcome place =>
      rw [perform, newOutcome]
      cases workspace.game place with
      | error fault => exact known
      | ok subject => exact put_other place _ other
  | deleteOutcome place handle =>
      rw [perform]
      split
      · exact put_other place _ other
      · exact known
  | edit place change =>
      rw [perform]
      split
      · exact put_other place _ other
      · exact known
  | abandon count => exact known

-- Every handle is handed out once, as long as there are keys; which games it resolves in is told by where it
-- was created, the copies taken since, and the deletions; and games do not touch each other.
theorem handles_follow_lineage (operations : List Operation) :
    (handed (run operations).log).Nodup ∧
    (∀ handle ∈ handed (run operations).log, handle.key ≤ (handed (run operations).log).length) ∧
    ∀ index game, (run operations).workspace.games[index]? = some game →
      (∃ handle next, (run operations).workspace.newOutcome index = .ok (handle, next) ∧
        handle ∉ handed (run operations).log) ∧
      (∀ handle, (game.outcome? handle).isSome ↔ Lives (run operations).log handle index) ∧
      (∀ handle, .deleted index handle ∈ (run operations).log → game.outcome? handle = none) ∧
      ∀ operation, operation.subject? ≠ some index →
        ((run operations).step operation).workspace.games[index]? = some game := by
  have traced := run_traced operations
  have resolves (index : Nat) (game : Game) (known : (run operations).workspace.games[index]? = some game)
      (handle : Handle) : (game.outcome? handle).isSome ↔ Lives (run operations).log handle index := by
    rw [game.outcome_found_iff, traced.lives, known]
    simp
  refine ⟨?_, ?_, fun index game known => ⟨?_, resolves index game known, ?_, ?_⟩⟩
  · rw [traced.handed]
    exact (List.nodup_range' 1).map fun _ _ same => Handle.mk.inj same
  · rw [traced.handed, List.length_map, List.length_range']
    rintro handle member
    obtain ⟨key, inside, rfl⟩ := List.mem_map.mp member
    have bounds := List.mem_range'_1.mp inside
    dsimp only
    omega
  · have returned := new_outcome_returns (run operations).workspace index game known
    exact ⟨_, _, returned, traced.unseen (run operations).workspace.nextKey (Nat.le_refl _)⟩
  · intro handle deleted
    obtain ⟨-, -, dead⟩ := traced.gone index handle deleted
    exact Option.not_isSome_iff_eq_none.mp fun found => dead ((resolves index game known handle).mp found)
  · intro operation other
    exact perform_elsewhere _ operation index game known other

-- An outcome is copied with its game and then deleted in the original.
def copiedThenDeleted : List Operation :=
  [.load (.blank [1]), .newOutcome 0, .copy 0, .deleteOutcome 0 ⟨1⟩, .newOutcome 1]

theorem handles_follow_lineage_copied : ∃ original copy,
    (run copiedThenDeleted).workspace.games[0]? = some original ∧
    (run copiedThenDeleted).workspace.games[1]? = some copy ∧
    original.outcome? ⟨1⟩ = none ∧ (copy.outcome? ⟨1⟩).isSome ∧ (copy.outcome? ⟨2⟩).isSome ∧
    ((run copiedThenDeleted).step (.newOutcome 0)).workspace.games[1]? = some copy := by
  have log : (run copiedThenDeleted).log =
      [.created 0 ⟨1⟩, .copied 0 1, .deleted 0 ⟨1⟩, .created 1 ⟨2⟩] := rfl
  obtain ⟨-, -, each⟩ := handles_follow_lineage copiedThenDeleted
  obtain ⟨-, -, deleted, -⟩ := each 0 _ rfl
  obtain ⟨-, resolves, -, elsewhere⟩ := each 1 _ rfl
  refine ⟨_, _, rfl, rfl, deleted ⟨1⟩ ?_, (resolves ⟨1⟩).mpr ?_, (resolves ⟨2⟩).mpr ?_, elsewhere (.newOutcome 0) ?_⟩
  · simp [log]
  · exact ⟨[], 0, _, log, .copied _ _ _ _ (.stays _ _ _ _ (by simp) (.stays _ _ _ _ (by simp) (.nil 1)))⟩
  · exact ⟨[.created 0 ⟨1⟩, .copied 0 1, .deleted 0 ⟨1⟩], 1, [], log, .nil 1⟩
  · exact fun same => absurd (Option.some.inj same) (by decide)

end NormalForm.Workspace
