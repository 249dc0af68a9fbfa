import Mathlib.Data.List.Pairwise
import NormalForm.Proofs.Path.Safety

/-!
The order of classes after a repair. The visit of a player's classes compares each class once with the
one below, so that two neighbours are in order if the lower one is as it was before and the upper one
was not merged. A class that the visit itself makes is not compared with the one above, and one that
it merges not with the one below either.
-/

set_option autoImplicit false

namespace NormalForm

-- All members lie in one of the classes.
def Ranking.Within (members : List Nat) (classes : List (List Nat)) : Prop :=
  ∃ whole ∈ classes, ∀ strategy ∈ members, strategy ∈ whole

-- The upper class earns more than the lower, each by its first member.
def Mixed.Outranks {α : Type} [Arithmetic α] (profile : Mixed α) (player : Nat) (upper lower : List Nat) : Prop :=
  ∃ first second better worse, Ranking.representative upper = .ok first ∧
    Ranking.representative lower = .ok second ∧ profile.strategyValue player first = .ok better ∧
    profile.strategyValue player second = .ok worse ∧ Arithmetic.le better worse = false

namespace Ranking

/-! What merging and parting make of the classes. -/

theorem merge_cases (ranking merged : Ranking) (rank : Nat) (run : ranking.merge rank = .ok merged) :
    ∃ upper lower rest, ranking.classes.drop rank = upper :: lower :: rest ∧
      merged.classes = ranking.classes.take rank ++ union upper lower :: rest := by
  rw [merge] at run
  split at run
  · cases run
  · split at run
    · rename_i upper lower rest dropped
      cases run
      exact ⟨upper, lower, rest, dropped, rfl⟩
    · cases run

theorem split_cases (ranking parted : Ranking) (rank : Nat) (top : List Nat) (run : ranking.split rank top = .ok parted) :
    ∃ members rest, ranking.classes.drop rank = members :: rest ∧ top ≠ [] ∧ top.length < members.length ∧
      (∀ strategy ∈ top, strategy ∈ members) ∧
      parted.classes = ranking.classes.take rank ++ ofMembers top :: others top members :: rest := by
  rw [split] at run
  split at run
  · rename_i members rest dropped
    split at run
    · cases run
    · rename_i proper
      split at run
      · rename_i within
        cases run
        rw [not_or, Nat.not_le] at proper
        exact ⟨members, rest, dropped, proper.1, proper.2, by simpa using within, rfl⟩
      · cases run
  · cases run

/-! What visits of a class make cannot be a class of before. -/

theorem meeting_classes_equal (ranking : Ranking) (n : Nat) (valid : ranking.Valid n) (a b : List Nat)
    (left : a ∈ ranking.classes) (right : b ∈ ranking.classes) (strategy : Nat) (inLeft : strategy ∈ a)
    (inRight : strategy ∈ b) : a = b := by
  have symmetric : Std.Symm (List.Disjoint (α := Nat)) := ⟨fun _ _ apart _ left right => apart right left⟩
  by_contra different
  exact valid.disjoint.forall left right different inLeft inRight

theorem union_not_within (old : Ranking) (n : Nat) (valid : old.Valid n) (upper lower : List Nat)
    (nonempty : upper ≠ []) (listed : lower ∈ old.classes) (apart : upper.Disjoint lower) :
    ¬ Within (union upper lower) old.classes := by
  rintro ⟨whole, inOld, contained⟩
  obtain ⟨low, inLower⟩ := List.exists_mem_of_ne_nil lower (valid.nonempty lower listed)
  obtain ⟨high, inUpper⟩ := List.exists_mem_of_ne_nil upper nonempty
  have inWhole := contained low ((mem_union upper lower low).mpr (.inr inLower))
  have same := meeting_classes_equal old n valid lower whole listed inOld low inLower inWhole
  have shared := contained high ((mem_union upper lower high).mpr (.inl inUpper))
  exact apart inUpper (same ▸ shared)

-- Neither part of a class is a class of before if the class lay in one.
theorem part_not_listed (old : Ranking) (n : Nat) (valid : old.Valid n) (members part : List Nat)
    (within : Within members old.classes) (nonempty : part ≠ []) (contained : ∀ strategy ∈ part, strategy ∈ members)
    (other : Nat) (inMembers : other ∈ members) (absent : other ∉ part) : part ∉ old.classes := by
  intro listed
  obtain ⟨whole, inOld, inWhole⟩ := within
  obtain ⟨strategy, inPart⟩ := List.exists_mem_of_ne_nil part nonempty
  have same := meeting_classes_equal old n valid part whole listed inOld strategy inPart
    (inWhole strategy (contained strategy inPart))
  exact absent (same ▸ inWhole other inMembers)

theorem parts_unlisted (old : Ranking) (n : Nat) (valid : old.Valid n) (members top : List Nat)
    (within : Within members old.classes) (nodup : members.Nodup) (leaders : top ≠ [])
    (proper : top.length < members.length) (contained : ∀ strategy ∈ top, strategy ∈ members) :
    ofMembers top ∉ old.classes ∧ others top members ∉ old.classes := by
  obtain ⟨low, inLower⟩ := List.exists_mem_of_ne_nil _ (others_nonempty top members nodup proper)
  obtain ⟨lowMember, lowAbsent⟩ := (mem_others top members low).mp inLower
  obtain ⟨high, inTop⟩ := List.exists_mem_of_ne_nil top leaders
  constructor
  · apply part_not_listed old n valid members _ within (List.ne_nil_of_mem ((mem_of_members high top).mpr inTop))
      (fun strategy member => contained strategy ((mem_of_members strategy top).mp member)) low lowMember
    exact fun member => lowAbsent ((mem_of_members low top).mp member)
  · apply part_not_listed old n valid members _ within (List.ne_nil_of_mem inLower)
      (fun strategy member => ((mem_others top members strategy).mp member).1) high (contained high inTop)
    exact fun member => ((mem_others top members high).mp member).2 inTop

end Ranking

namespace Path

variable {α : Type} [Scalar α]

-- What a visit of one class can do to the ranking.
inductive Rearranges (path : Path α) (player rank : Nat) (before after : Ranking) : Prop where
  | kept (ordered : path.flipped player before rank = .ok false) (same : after = before)
  | merged (upper lower : List Nat) (rest : List (List Nat))
      (dropped : before.classes.drop rank = upper :: lower :: rest)
      (classes : after.classes = before.classes.take rank ++ Ranking.union upper lower :: rest)
  | parted (members top : List Nat) (rest : List (List Nat))
      (dropped : before.classes.drop rank = members :: rest) (leaders : top ≠ [])
      (proper : top.length < members.length) (contained : ∀ strategy ∈ top, strategy ∈ members)
      (classes : after.classes =
        before.classes.take rank ++ Ranking.ofMembers top :: Ranking.others top members :: rest)

theorem merge_rearranges (path : Path α) (player rank : Nat) (before after : Ranking)
    (run : before.merge rank = .ok after) : Rearranges path player rank before after := by
  obtain ⟨upper, lower, rest, dropped, classes⟩ := Ranking.merge_cases before after rank run
  exact .merged upper lower rest dropped classes

theorem split_rearranges (path : Path α) (player rank : Nat) (before after : Ranking) (top : List Nat)
    (run : before.split rank top = .ok after) : Rearranges path player rank before after := by
  obtain ⟨members, rest, dropped, leaders, proper, contained, classes⟩ := Ranking.split_cases before after rank top run
  exact .parted members top rest dropped leaders proper contained classes

theorem visit_class_rearranges (player step rank : Nat) (visit after : Visit α)
    (run : visitClass player step rank visit = .ok after) :
    Rearranges visit.path player rank visit.ranking after.ranking := by
  obtain ⟨isFlipped, compared, run⟩ := bind_eq_ok.mp run
  cases isFlipped with
  | true =>
      rw [if_pos rfl] at run
      obtain ⟨upper, -, run⟩ := bind_eq_ok.mp run
      obtain ⟨merged, mergeRun, run⟩ := bind_eq_ok.mp run
      cases run
      exact merge_rearranges visit.path player rank _ _ mergeRun
  | false =>
      rw [if_neg Bool.false_ne_true] at run
      obtain ⟨members, -, run⟩ := bind_eq_ok.mp run
      split at run
      · obtain ⟨_, -, run⟩ := bind_eq_ok.mp run
        obtain ⟨ranked, -, run⟩ := bind_eq_ok.mp run
        obtain ⟨point, -, run⟩ := bind_eq_ok.mp run
        cases point with
        | none =>
            cases run
            exact .kept compared rfl
        | some top =>
            obtain ⟨parted, splitRun, run⟩ := bind_eq_ok.mp run
            obtain ⟨newUpper, -, run⟩ := bind_eq_ok.mp run
            obtain ⟨newLower, -, run⟩ := bind_eq_ok.mp run
            obtain ⟨upperFirst, -, run⟩ := bind_eq_ok.mp run
            obtain ⟨lowerFirst, -, run⟩ := bind_eq_ok.mp run
            cases run
            exact split_rearranges visit.path player rank _ _ top splitRun
      · cases run
        exact .kept compared rfl

theorem flipped_eq (path : Path α) (player rank first second : Nat) (ranking : Ranking) (upper lower : List Nat)
    (better worse : α) (up : ranking.classes[rank]? = some (first :: upper))
    (low : ranking.classes[rank + 1]? = some (second :: lower))
    (above : path.profile.strategyValue player first = .ok better)
    (below : path.profile.strategyValue player second = .ok worse) :
    path.flipped player ranking rank = .ok (Arithmetic.le better worse) := by
  have inside : rank + 1 < ranking.size := (List.getElem?_eq_some_iff.mp low).1
  rw [flipped, if_pos inside, Ranking.members, Ranking.members, (entry_eq_ok _ _ _).mpr up,
    (entry_eq_ok _ _ _).mpr low]
  simp only [Ranking.representative, above, below, ok_bind]

theorem outranks_of_not_flipped (path : Path α) (player rank : Nat) (ranking : Ranking) (upper lower : List Nat)
    (compared : path.flipped player ranking rank = .ok false) (up : ranking.classes[rank]? = some upper)
    (low : ranking.classes[rank + 1]? = some lower) : path.profile.Outranks player upper lower := by
  have inside : rank + 1 < ranking.size := (List.getElem?_eq_some_iff.mp low).1
  rw [flipped, if_pos inside, Ranking.members, Ranking.members, (entry_eq_ok _ _ _).mpr up,
    (entry_eq_ok _ _ _).mpr low, ok_bind, ok_bind] at compared
  obtain ⟨first, firstRead, compared⟩ := bind_eq_ok.mp compared
  obtain ⟨better, betterRead, compared⟩ := bind_eq_ok.mp compared
  obtain ⟨second, secondRead, compared⟩ := bind_eq_ok.mp compared
  obtain ⟨worse, worseRead, compared⟩ := bind_eq_ok.mp compared
  exact ⟨first, second, better, worse, firstRead, secondRead, betterRead, worseRead, Except.ok.inj compared⟩

/-! The classes above a place of the visit. -/

-- The pairs of neighbours down to this place are in order as far as the visit has left them alone.
def Settled (profile : Mixed α) (player : Nat) (old : List (List Nat)) (rank : Nat)
    (classes : List (List Nat)) : Prop :=
  ∀ (place : Nat) (upper lower : List Nat), place < rank → classes[place]? = some upper →
    classes[place + 1]? = some lower → Ranking.Within upper old → lower ∈ old → profile.Outranks player upper lower

-- What the visit has still to see: a class that lay in one of before, and below it classes of before.
def Ahead (old remaining : List (List Nat)) : Prop :=
  ∀ first rest, remaining = first :: rest → Ranking.Within first old ∧ ∀ members ∈ rest, members ∈ old

theorem ahead_of_listed (old remaining : List (List Nat)) (listed : ∀ members ∈ remaining, members ∈ old) :
    Ahead old remaining := by
  rintro first rest rfl
  refine ⟨⟨first, listed first List.mem_cons_self, fun strategy member => member⟩, ?_⟩
  exact fun members member => listed members (List.mem_cons_of_mem first member)

theorem settled_exchange (profile : Mixed α) (player : Nat) (old : List (List Nat)) (rank : Nat)
    (classes tail : List (List Nat)) (inside : rank < classes.length) (settled : Settled profile player old rank classes)
    (head : ∀ first ∈ tail[0]?, first ∉ old)
    (pair : ∀ upper ∈ tail[0]?, ∀ lower ∈ tail[1]?, Ranking.Within upper old → lower ∉ old) :
    Settled profile player old (rank + 1) (classes.take rank ++ tail) := by
  intro place upper lower before up low within kept
  have size : (classes.take rank).length = rank := List.length_take_of_le (Nat.le_of_lt inside)
  rcases Nat.lt_trichotomy (place + 1) rank with above | last | beyond
  · rw [List.getElem?_append_left (by omega), List.getElem?_take_of_lt (by omega)] at up
    rw [List.getElem?_append_left (by omega), List.getElem?_take_of_lt above] at low
    exact settled place upper lower (by omega) up low within kept
  · rw [List.getElem?_append_right (by omega), size, last, Nat.sub_self] at low
    exact absurd kept (head lower low)
  · obtain rfl : place = rank := by omega
    rw [List.getElem?_append_right (by omega), size, Nat.sub_self] at up
    rw [List.getElem?_append_right (by omega), size, Nat.add_sub_cancel_left] at low
    exact absurd kept (pair upper up lower low within)

-- A class that is kept is in order with the one below, and one that the visit makes is none of before.
theorem rearranged_settled (path : Path α) (player rank n : Nat) (old before after : Ranking)
    (oldValid : old.Valid n) (valid : before.Valid n) (inside : rank < before.size)
    (settled : Settled path.profile player old.classes rank before.classes)
    (ahead : Ahead old.classes (before.classes.drop rank))
    (rearranged : Rearranges path player rank before after) :
    Settled path.profile player old.classes (rank + 1) after.classes ∧
      Ahead old.classes (after.classes.drop (rank + 1)) := by
  cases rearranged with
  | kept ordered same =>
      rw [same]
      refine ⟨?_, ?_⟩
      · intro place upper lower above up low within kept
        rcases Nat.lt_succ_iff_lt_or_eq.mp above with earlier | rfl
        · exact settled place upper lower earlier up low within kept
        · exact outranks_of_not_flipped path player place before upper lower ordered up low
      · exact ahead_of_listed _ _ (ahead _ _ (List.drop_eq_getElem_cons inside)).2
  | merged upper lower rest dropped classes =>
      obtain ⟨-, listed⟩ := ahead upper (lower :: rest) dropped
      have disjoint := dropped ▸ valid.disjoint.sublist (List.drop_sublist rank before.classes)
      have apart : upper.Disjoint lower := (List.pairwise_cons.mp disjoint).1 lower List.mem_cons_self
      have nonempty := valid.nonempty upper (List.mem_of_mem_drop (dropped ▸ List.mem_cons_self))
      have fresh := Ranking.union_not_within old n oldValid upper lower nonempty
        (listed lower List.mem_cons_self) apart
      have unlisted : Ranking.union upper lower ∉ old.classes := fun listed =>
        fresh ⟨_, listed, fun strategy member => member⟩
      rw [classes, drop_after_take _ _ _ _ _ dropped]
      refine ⟨?_, ahead_of_listed _ _ fun members member => listed members (List.mem_cons_of_mem lower member)⟩
      apply settled_exchange _ _ _ _ _ _ inside settled
      · rintro first ⟨⟩
        exact unlisted
      · rintro first ⟨⟩ second - within
        exact absurd within fresh
  | parted members top rest dropped leaders proper contained classes =>
      obtain ⟨within, listed⟩ := ahead members rest dropped
      have nodup := Ranking.ascending_nodup members
        (valid.ascending members (List.mem_of_mem_drop (dropped ▸ List.mem_cons_self)))
      obtain ⟨topUnlisted, lowerUnlisted⟩ :=
        Ranking.parts_unlisted old n oldValid members top within nodup leaders proper contained
      rw [classes, drop_after_take _ _ _ _ _ dropped]
      refine ⟨?_, ?_⟩
      · apply settled_exchange _ _ _ _ _ _ inside settled
        · rintro first ⟨⟩
          exact topUnlisted
        · rintro first ⟨⟩ second ⟨⟩ -
          exact lowerUnlisted
      · rintro first others ⟨⟩
        obtain ⟨whole, inOld, inWhole⟩ := within
        refine ⟨⟨whole, inOld, fun strategy member => ?_⟩, listed⟩
        exact inWhole strategy ((Ranking.mem_others top members strategy).mp member).1

-- After a repair: neighbours of whom the upper has not been merged and the lower is one of before.
def InOrder (profile : Mixed α) (player : Nat) (before after : Ranking) : Prop :=
  ∀ (place : Nat) (upper lower : List Nat), after.classes[place]? = some upper →
    after.classes[place + 1]? = some lower → Ranking.Within upper before.classes → lower ∈ before.classes →
    profile.Outranks player upper lower

theorem visit_from_next (player step rank : Nat) (visit after : Visit α) (inside : rank < visit.ranking.size)
    (done : visitClass player step rank visit = .ok after) :
    visitFrom player step rank visit = visitFrom player step (rank + 1) after := by
  rw [visitFrom, dif_pos inside]
  split
  · rename_i fault failed
    cases done.symm.trans failed
  · rename_i other visited
    cases done.symm.trans visited
    rfl

-- What every visit of a class hands on to the next place holds when all are visited. The induction follows the
-- visit of the classes.
theorem visit_from_holds (player step : Nat) (Holds : Nat → Visit α → Prop)
    (each : ∀ rank visit after, rank < visit.ranking.size → Holds rank visit →
      visitClass player step rank visit = .ok after → Holds (rank + 1) after)
    (rank : Nat) (visit after : Visit α) (first : Holds rank visit)
    (run : visitFrom player step rank visit = .ok after) : ∃ last, after.ranking.size ≤ last ∧ Holds last after := by
  by_cases inside : rank < visit.ranking.size
  · rw [visitFrom, dif_pos inside] at run
    split at run
    · cases run
    · rename_i next done
      have shorter := remaining_visit player step rank visit next inside done
      exact visit_from_holds player step Holds each (rank + 1) next after (each rank visit next inside first done) run
  · rw [visitFrom, dif_neg inside] at run
    cases run
    exact ⟨rank, Nat.le_of_not_lt inside, first⟩
termination_by remaining visit.ranking rank
decreasing_by exact shorter

-- What a visit of the classes can count on.
structure Visit.Fits (visit : Visit α) (player n : Nat) : Prop where
  valid : visit.path.Valid
  ranked : visit.ranking.Valid n
  known : visit.path.table.dims[player]? = some n

theorem visit_class_fits (player step rank n : Nat) (visit after : Visit α) (fits : visit.Fits player n)
    (inside : rank < visit.ranking.size) (run : visitClass player step rank visit = .ok after) :
    after.Fits player n ∧ SamePlace visit.path after.path := by
  obtain ⟨same, sameRun, keeps⟩ := visit_class_succeeds player step rank n visit fits.valid fits.ranked fits.known inside
  cases run.symm.trans sameRun
  have table : after.path.table = visit.path.table := congrArg Mixed.table keeps.place.profile
  exact ⟨⟨keeps.path, keeps.ranking, table ▸ fits.known⟩, keeps.place⟩

-- What the visit has settled among the classes above, and what it has still to see.
structure Visit.Orders (visit : Visit α) (profile : Mixed α) (player n : Nat) (old : Ranking) (rank : Nat) : Prop where
  fits : visit.Fits player n
  stays : visit.path.profile = profile
  settled : Settled profile player old.classes rank visit.ranking.classes
  ahead : Ahead old.classes (visit.ranking.classes.drop rank)

theorem visit_class_orders (player step rank n : Nat) (old : Ranking) (oldValid : old.Valid n) (profile : Mixed α)
    (visit after : Visit α) (inside : rank < visit.ranking.size) (orders : visit.Orders profile player n old rank)
    (run : visitClass player step rank visit = .ok after) : after.Orders profile player n old (rank + 1) := by
  obtain ⟨fits, rfl, settled, ahead⟩ := orders
  obtain ⟨afterFits, place⟩ := visit_class_fits player step rank n visit after fits inside run
  obtain ⟨afterSettled, afterAhead⟩ := rearranged_settled visit.path player rank n old visit.ranking after.ranking
    oldValid fits.ranked inside settled ahead (visit_class_rearranges player step rank visit after run)
  exact ⟨afterFits, place.profile, afterSettled, afterAhead⟩

theorem repair_visits (path : Path α) (player step : Nat) (result : Path α × List (Event α))
    (run : path.repair player step = .ok result) (before after : Ranking)
    (was : path.rankings[player]? = some before) (now : result.1.rankings[player]? = some after) :
    ∃ visit, visitFrom player step 0 { path, ranking := before, events := [] } = .ok visit ∧ visit.ranking = after ∧
      result = ({ visit.path with rankings := visit.path.rankings.set player visit.ranking }, visit.events) := by
  rw [repair, (entry_eq_ok _ _ _).mpr was, ok_bind] at run
  obtain ⟨visit, visited, run⟩ := bind_eq_ok.mp run
  cases run
  have place : player < visit.path.rankings.length := by
    rw [← List.length_set]
    exact (List.getElem?_eq_some_iff.mp now).1
  rw [List.getElem?_set_self place] at now
  exact ⟨visit, visited, Option.some.inj now, rfl⟩

theorem repair_in_order (path : Path α) (valid : path.Valid) (player step : Nat)
    (result : Path α × List (Event α)) (run : path.repair player step = .ok result) (before after : Ranking)
    (was : path.rankings[player]? = some before) (now : result.1.rankings[player]? = some after) :
    InOrder path.profile player before after := by
  obtain ⟨inside, ranked⟩ := valid_ranking path valid player before was
  obtain ⟨visit, visited, rfl, -⟩ := repair_visits path player step result run before after was now
  have first : Visit.Orders { path, ranking := before, events := [] } path.profile player _ before 0 :=
    ⟨⟨valid, ranked, path.table.strategy_count_inside player inside⟩, rfl,
      fun place _ _ above => absurd above (Nat.not_lt_zero place),
      ahead_of_listed _ _ fun members => List.mem_of_mem_drop⟩
  obtain ⟨last, whole, orders⟩ := visit_from_holds player step
    (fun rank now => now.Orders path.profile player _ before rank)
    (fun rank now next => visit_class_orders player step rank _ before ranked path.profile now next) 0 _ visit first
    visited
  intro place upper lower up
  have above : place < visit.ranking.size := (List.getElem?_eq_some_iff.mp up).1
  exact orders.settled place upper lower (by omega) up

theorem repair_others (path : Path α) (valid : path.Valid) (player step : Nat)
    (result : Path α × List (Event α)) (run : path.repair player step = .ok result) (other : Nat)
    (different : other ≠ player) : result.1.rankings[other]? = path.rankings[other]? := by
  obtain ⟨ranking, read, run⟩ := bind_eq_ok.mp run
  obtain ⟨inside, ranked⟩ := valid_ranking path valid player ranking ((entry_eq_ok _ _ _).mp read)
  obtain ⟨visit, visited, run⟩ := bind_eq_ok.mp run
  obtain ⟨after, same, keeps⟩ := visit_from_succeeds player step 0 _
    { path, ranking, events := [] } valid ranked (path.table.strategy_count_inside player inside)
  cases visited.symm.trans same
  cases run
  rw [List.getElem?_set_ne different.symm, keeps.place.rankings]

-- What every repair does to the path and enters in the log goes for all of them in a row.
theorem repair_all_follows (step : Nat) (Leads : Path α → Path α → List (Event α) → Prop)
    (stays : ∀ path, Leads path path [])
    (joins : ∀ first second third events later, Leads first second events → Leads second third later →
      Leads first third (events ++ later))
    (each : ∀ path player result, path.repair player step = .ok result → Leads path result.1 result.2)
    (path : Path α) (players : List Nat) (result : Path α × List (Event α))
    (run : path.repairAll step players = .ok result) : Leads path result.1 result.2 := by
  induction players generalizing path result with
  | nil =>
      cases run
      exact stays path
  | cons player rest ih =>
      obtain ⟨⟨next, events⟩, here, run⟩ := bind_eq_ok.mp run
      obtain ⟨⟨last, later⟩, others, run⟩ := bind_eq_ok.mp run
      cases run
      exact joins path next last events later (each path player _ here) (ih next (last, later) others)

-- Each player is visited once; the other visits leave the ranking alone, and all see one profile.
theorem repair_all_in_order (path : Path α) (valid : path.Valid) (step : Nat) (players : List Nat)
    (distinct : players.Nodup) (inside : ∀ player ∈ players, player < path.rankings.length)
    (result : Path α × List (Event α)) (run : path.repairAll step players = .ok result) (player : Nat)
    (before after : Ranking) (was : path.rankings[player]? = some before)
    (now : result.1.rankings[player]? = some after) :
    if player ∈ players then InOrder path.profile player before after else after = before := by
  induction players generalizing path result before with
  | nil =>
      cases run
      exact Option.some.inj (now.symm.trans was)
  | cons first rest ih =>
      obtain ⟨once, others⟩ := List.nodup_cons.mp distinct
      obtain ⟨⟨next, events⟩, repaired, run⟩ := bind_eq_ok.mp run
      obtain ⟨⟨last, later⟩, restRun, run⟩ := bind_eq_ok.mp run
      cases run
      obtain ⟨same, sameRun, nextValid, profile, sizes⟩ :=
        repair_succeeds path valid first step (inside first List.mem_cons_self)
      cases repaired.symm.trans sameRun
      have further := fun middle => ih next nextValid others
        (fun other listed => sizes ▸ inside other (List.mem_cons_of_mem first listed)) _ restRun middle
      by_cases here : player = first
      · subst here
        have found : player < next.rankings.length := sizes ▸ inside player List.mem_cons_self
        have kept := further _ (List.getElem?_eq_getElem found) now
        rw [if_neg once] at kept
        rw [if_pos List.mem_cons_self, kept]
        exact repair_in_order path valid player step _ repaired before _ was (List.getElem?_eq_getElem found)
      · have kept := further before ((repair_others path valid first step _ repaired player here).trans was) now
        have same : player ∈ first :: rest ↔ player ∈ rest := by simp [here]
        simp only [same]
        rwa [show next.profile = path.profile from profile] at kept

-- A step that succeeds moves the path and then repairs every ranking.
theorem advance_repairs (path : Path α) (valid : path.Valid) (step : Nat) (config : Config α)
    (attempt : Attempt α) (advanced : path.advance step config = .ok attempt) (whole : attempt.failure = none) :
    ∃ (moved : Path α) (repairs : List (Event α)), moved.Valid ∧ moved.rankings = path.rankings ∧
      moved.repairAll step (List.range moved.rankings.length) = .ok (attempt.path, repairs) := by
  obtain ⟨rows, ⟨oriented, direction, turned⟩, built, settled, orientedValid, place, -, length⟩ :=
    turn_succeeds path valid
  simp only [advance, built, settled, ok_bind] at advanced
  split at advanced
  · obtain ⟨rate, -, moved⟩ :=
      move_succeeds oriented orientedValid direction config.stepSize (Path.length direction) length
    have movedValid := move_valid oriented orientedValid _
      (oriented.lambda + rate * (config.stepSize / Path.length direction))
      (steps_length direction (config.stepSize / Path.length direction) _ length)
    rw [moved, ok_bind] at advanced
    split at advanced
    · cases advanced
      cases whole
    · obtain ⟨⟨last, repairs⟩, run, same⟩ := bind_eq_ok.mp advanced
      cases same
      exact ⟨_, repairs, movedValid, place.rankings, run⟩
  · cases advanced
    cases whole

theorem advance_in_order (path : Path α) (valid : path.Valid) (step : Nat) (config : Config α)
    (attempt : Attempt α) (advanced : path.advance step config = .ok attempt) (whole : attempt.failure = none)
    (player : Nat) (before after : Ranking) (was : path.rankings[player]? = some before)
    (now : attempt.path.rankings[player]? = some after) :
    InOrder attempt.path.profile player before after := by
  obtain ⟨moved, repairs, movedValid, rankings, run⟩ := advance_repairs path valid step config attempt advanced whole
  have inside : ∀ other ∈ List.range moved.rankings.length, other < moved.rankings.length :=
    fun other listed => List.mem_range.mp listed
  obtain ⟨same, sameRun, -, profile⟩ := repair_all_succeeds moved movedValid step _ inside
  cases run.symm.trans sameRun
  have listed : player ∈ List.range moved.rankings.length := by
    rw [List.mem_range, rankings]
    exact (List.getElem?_eq_some_iff.mp was).1
  have kept := repair_all_in_order moved movedValid step _ List.nodup_range inside _ run player before after
    (rankings ▸ was) now
  rw [if_pos listed] at kept
  rwa [show attempt.path.profile = moved.profile from profile]

end Path

end NormalForm
