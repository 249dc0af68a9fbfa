import NormalForm.Proofs.Path.Leaders
import NormalForm.Proofs.Path.Turning

/-!
What a repair leaves undone. A class that the visit passes has no split due, unless the visit has just merged it
of two: one that is kept was tried, and of one that is parted the upper part is shorter than the first group
that was due, while the lower part is visited next.
-/

set_option autoImplicit false

namespace NormalForm.Path

variable {α : Type} [Scalar α]

theorem split_point_of_place (before after : Path α) (profile : after.profile = before.profile)
    (lambda : after.lambda = before.lambda) (player : Nat) (members : List Nat) (ranked : Nat) :
    after.splitPoint? player members ranked = before.splitPoint? player members ranked := by
  have table : after.table = before.table := congrArg Mixed.table profile
  simp only [splitPoint?, byProbability, profile, lambda, table]

-- What a visit finds in a class, and what it enters in the log.
inductive Visited (player step rank : Nat) (visit after : Visit α) : Prop where
  | kept (same : after = visit)
      (settled : ∀ members, visit.ranking.classes[rank]? = some members → 1 < members.length →
        visit.path.splitPoint? player members (visit.ranking.classes.take rank).flatten.length = .ok none)
  | merged (upper lower : List Nat) (rest : List (List Nat))
      (dropped : visit.ranking.classes.drop rank = upper :: lower :: rest)
      (classes : after.ranking.classes = visit.ranking.classes.take rank ++ Ranking.union upper lower :: rest)
      (events : after.events = visit.events ++ [.merged step player rank visit.path.lambda])
  | parted (members top : List Nat) (rest : List (List Nat)) (leaders whole : Nat)
      (dropped : visit.ranking.classes.drop rank = members :: rest)
      (due : visit.path.splitPoint? player members (visit.ranking.classes.take rank).flatten.length = .ok (some top))
      (contained : ∀ strategy ∈ top, strategy ∈ members)
      (classes : after.ranking.classes = visit.ranking.classes.take rank ++
        Ranking.ofMembers top :: Ranking.others top members :: rest)
      (events : after.events = visit.events ++ [.parted step player rank leaders whole visit.path.lambda])

theorem visit_class_visited (player step rank : Nat) (visit after : Visit α)
    (run : visitClass player step rank visit = .ok after) : Visited player step rank visit after := by
  obtain ⟨isFlipped, -, run⟩ := bind_eq_ok.mp run
  cases isFlipped with
  | true =>
      rw [if_pos rfl] at run
      obtain ⟨above, -, run⟩ := bind_eq_ok.mp run
      obtain ⟨merged, mergeRun, run⟩ := bind_eq_ok.mp run
      obtain ⟨upper, lower, rest, dropped, classes⟩ := Ranking.merge_cases _ _ _ mergeRun
      cases run
      exact .merged upper lower rest dropped classes rfl
  | false =>
      rw [if_neg Bool.false_ne_true] at run
      obtain ⟨members, read, run⟩ := bind_eq_ok.mp run
      have found : visit.ranking.classes[rank]? = some members := (entry_eq_ok _ _ _).mp read
      by_cases several : 1 < members.length
      · rw [if_pos several] at run
        obtain ⟨same, readAgain, run⟩ := bind_eq_ok.mp run
        cases read.symm.trans readAgain
        obtain ⟨ranked, start, run⟩ := bind_eq_ok.mp run
        have inside : rank ≤ visit.ranking.size := Nat.le_of_lt (List.getElem?_eq_some_iff.mp found).1
        cases start.symm.trans (Ranking.rank_offset_inside visit.ranking rank inside)
        obtain ⟨point, tried, run⟩ := bind_eq_ok.mp run
        cases point with
        | none =>
            cases run
            refine .kept rfl fun other known _ => ?_
            cases found.symm.trans known
            exact tried
        | some top =>
            obtain ⟨parted, splitRun, run⟩ := bind_eq_ok.mp run
            obtain ⟨newUpper, -, run⟩ := bind_eq_ok.mp run
            obtain ⟨newLower, -, run⟩ := bind_eq_ok.mp run
            obtain ⟨upperFirst, -, run⟩ := bind_eq_ok.mp run
            obtain ⟨lowerFirst, -, run⟩ := bind_eq_ok.mp run
            obtain ⟨whole, rest, dropped, -, -, contained, classes⟩ := Ranking.split_cases _ _ _ _ splitRun
            cases (Ranking.members_drop visit.ranking rank members read).2.symm.trans dropped
            cases run
            exact .parted members top _ _ _ dropped tried contained classes rfl
      · rw [if_neg several] at run
        cases run
        refine .kept rfl fun other known long => ?_
        cases found.symm.trans known
        exact absurd long several

/-! The classes that a visit has passed. -/

variable (player step : Nat) (old : Ranking)

-- Merged of two, and then in no class of before, or without a split that is due.
inductive Passed (visit : Visit α) (place : Nat) (members : List Nat) : Prop where
  | merged (entered : .merged step player place visit.path.lambda ∈ visit.events)
      (joined : ¬ Ranking.Within members old.classes)
  | settled (absent : .merged step player place visit.path.lambda ∉ visit.events)
      (within : Ranking.Within members old.classes)
      (undue : 1 < members.length →
        visit.path.splitPoint? player members (visit.ranking.classes.take place).flatten.length = .ok none)

structure Swept (rank : Nat) (visit : Visit α) : Prop where
  classes : ∀ place members, place < rank → visit.ranking.classes[place]? = some members →
    Passed player step old visit place members
  ahead : Ahead old.classes (visit.ranking.classes.drop rank)
  entered : ∀ place lambda, .merged step player place lambda ∈ visit.events → place < rank

-- The classes above stay where they are, and the log goes on with the class at hand.
theorem swept_exchange (rank : Nat) (visit after : Visit α) (tail : List (List Nat)) (events : List (Event α))
    (inside : rank < visit.ranking.size) (swept : Swept player step old rank visit)
    (same : SamePlace visit.path after.path) (classes : after.ranking.classes = visit.ranking.classes.take rank ++ tail)
    (added : after.events = visit.events ++ events)
    (here : ∀ place lambda, .merged step player place lambda ∈ events → place = rank)
    (head : ∀ members ∈ tail[0]?, Passed player step old after rank members)
    (ahead : Ahead old.classes tail.tail) : Swept player step old (rank + 1) after := by
  have size : (visit.ranking.classes.take rank).length = rank := List.length_take_of_le (Nat.le_of_lt inside)
  refine ⟨?_, ?_, ?_⟩
  · intro place members below found
    rcases Nat.lt_succ_iff_lt_or_eq.mp below with above | rfl
    · rw [classes, List.getElem?_append_left (by omega), List.getElem?_take_of_lt above] at found
      have offset : (after.ranking.classes.take place).flatten.length =
          (visit.ranking.classes.take place).flatten.length := by
        rw [classes, List.take_append_of_le_length (by omega), List.take_take, Nat.min_eq_left (by omega)]
      have log : .merged step player place after.path.lambda ∈ after.events ↔
          .merged step player place visit.path.lambda ∈ visit.events := by
        rw [added, same.lambda, List.mem_append, or_iff_left fun now => absurd (here _ _ now) (Nat.ne_of_lt above)]
      cases swept.classes place members above found with
      | merged entered joined => exact .merged (log.mpr entered) joined
      | settled absent within undue =>
          refine .settled (mt log.mp absent) within fun several => ?_
          rw [offset, split_point_of_place _ _ same.profile same.lambda]
          exact undue several
    · rw [classes, List.getElem?_append_right (Nat.le_of_eq size), size, Nat.sub_self] at found
      exact head members found
  · have dropped : after.ranking.classes.drop (rank + 1) = tail.tail := by
      rw [classes, List.drop_append, size, List.drop_eq_nil_of_le (by omega), List.nil_append, Nat.add_sub_cancel_left,
        List.drop_one]
    rwa [dropped]
  · intro place lambda entered
    rw [added, List.mem_append] at entered
    rcases entered with before | now
    · exact Nat.lt_succ_of_lt (swept.entered place lambda before)
    · exact Nat.lt_succ_of_le (Nat.le_of_eq (here place lambda now))

theorem swept_start (path : Path α) : Swept player step old 0 { path, ranking := old, events := [] } := by
  refine ⟨fun place members below => absurd below (Nat.not_lt_zero place), ?_,
    fun place lambda entered => absurd entered List.not_mem_nil⟩
  exact ahead_of_listed _ _ fun members => List.mem_of_mem_drop

variable [Std.TransCmp (Arithmetic.order (α := α))]

theorem visited_sweeps (rank n : Nat) (visit after : Visit α)
    (oldValid : old.Valid n) (valid : visit.ranking.Valid n) (inside : rank < visit.ranking.size)
    (same : SamePlace visit.path after.path) (swept : Swept player step old rank visit)
    (visited : Visited player step rank visit after) : Swept player step old (rank + 1) after := by
  have unmarked : ∀ lambda, .merged step player rank lambda ∉ visit.events := fun lambda entered =>
    Nat.lt_irrefl rank (swept.entered rank lambda entered)
  have offset (tail : List (List Nat)) (classes : after.ranking.classes = visit.ranking.classes.take rank ++ tail) :
      after.ranking.classes.take rank = visit.ranking.classes.take rank := by
    rw [classes]
    exact List.take_left' (List.length_take_of_le (Nat.le_of_lt inside))
  cases visited with
  | kept unchanged settled =>
      subst unchanged
      have dropped := List.drop_eq_getElem_cons inside
      obtain ⟨within, listed⟩ := swept.ahead _ _ dropped
      refine swept_exchange player step old rank after after _ [] inside swept same
        (List.take_append_drop rank _).symm (List.append_nil _).symm (fun _ _ listed => absurd listed List.not_mem_nil)
        ?_ ?_
      · intro members found
        rw [List.getElem?_drop, Nat.add_zero] at found
        have here := (List.getElem?_eq_some_iff.mp found).2
        exact .settled (unmarked _) (here ▸ within) (settled members found)
      · rw [dropped]
        exact ahead_of_listed _ _ listed
  | merged upper lower rest dropped classes events =>
      obtain ⟨-, listed⟩ := swept.ahead upper (lower :: rest) dropped
      have disjoint := dropped ▸ valid.disjoint.sublist (List.drop_sublist rank visit.ranking.classes)
      have apart : upper.Disjoint lower := (List.pairwise_cons.mp disjoint).1 lower List.mem_cons_self
      have nonempty := valid.nonempty upper (List.mem_of_mem_drop (dropped ▸ List.mem_cons_self))
      have joined := Ranking.union_not_within old n oldValid upper lower nonempty (listed lower List.mem_cons_self) apart
      refine swept_exchange player step old rank visit after _ _ inside swept same classes events ?_ ?_ ?_
      · intro place lambda entered
        cases List.mem_singleton.mp entered
        rfl
      · rintro members ⟨⟩
        refine .merged ?_ joined
        rw [events, same.lambda]
        exact List.mem_append_right _ (List.mem_singleton_self _)
      · exact ahead_of_listed _ _ fun members member => listed members (List.mem_cons_of_mem lower member)
  | parted members top rest leaders whole dropped due contained classes events =>
      obtain ⟨⟨source, inOld, inSource⟩, listed⟩ := swept.ahead members rest dropped
      have nodup := Ranking.ascending_nodup members
        (valid.ascending members (List.mem_of_mem_drop (dropped ▸ List.mem_cons_self)))
      refine swept_exchange player step old rank visit after _ _ inside swept same classes events ?_ ?_ ?_
      · intro place lambda entered
        cases List.mem_singleton.mp entered
      · rintro group ⟨⟩
        refine .settled ?_ ⟨source, inOld, fun strategy member => ?_⟩ fun _ => ?_
        · rw [events, List.mem_append, not_or]
          refine ⟨unmarked _, fun entered => ?_⟩
          cases List.mem_singleton.mp entered
        · exact inSource strategy (contained strategy ((Ranking.mem_of_members strategy top).mp member))
        · rw [offset _ classes, split_point_of_place _ _ same.profile same.lambda]
          have distinct := leaders_nodup visit.path player members top nodup _ due
          exact leaders_stay_together visit.path player members top nodup _ due _ (Ranking.of_members_perm top distinct)
      · rintro first others ⟨⟩
        refine ⟨⟨source, inOld, fun strategy member => ?_⟩, listed⟩
        exact inSource strategy ((Ranking.mem_others top members strategy).mp member).1

theorem visit_class_sweeps (rank n : Nat) (oldValid : old.Valid n) (visit after : Visit α)
    (inside : rank < visit.ranking.size) (before : visit.Fits player n ∧ Swept player step old rank visit)
    (run : visitClass player step rank visit = .ok after) :
    after.Fits player n ∧ Swept player step old (rank + 1) after := by
  obtain ⟨fits, swept⟩ := before
  obtain ⟨afterFits, place⟩ := visit_class_fits player step rank n visit after fits inside run
  exact ⟨afterFits, visited_sweeps player step old rank n visit after oldValid fits.ranked inside place swept
    (visit_class_visited player step rank visit after run)⟩

theorem repair_passes (path : Path α) (valid : path.Valid) (before after : Ranking) (repaired : Path α)
    (events : List (Event α)) (was : path.rankings[player]? = some before)
    (run : path.repair player step = .ok (repaired, events)) (now : repaired.rankings[player]? = some after)
    (place : Nat) (members : List Nat) (found : after.classes[place]? = some members) :
    Passed player step before { path := repaired, ranking := after, events } place members := by
  obtain ⟨inside, ranked⟩ := valid_ranking path valid player before was
  obtain ⟨visit, visited, rfl, same⟩ := repair_visits path player step _ run before after was now
  cases same
  have fits : Visit.Fits { path, ranking := before, events := [] } player (path.table.strategyCount player) :=
    ⟨valid, ranked, path.table.strategy_count_inside player inside⟩
  obtain ⟨last, whole, -, swept⟩ := visit_from_holds player step _
    (fun rank now next => visit_class_sweeps player step before rank _ ranked now next) 0 _ visit
    ⟨fits, swept_start player step before path⟩ visited
  have above : place < visit.ranking.size := (List.getElem?_eq_some_iff.mp found).1
  cases swept.classes place members (by omega) found with
  | merged entered joined => exact .merged entered joined
  | settled absent within undue => exact .settled absent within undue

-- A class lies in none of before just when the log has it merged.
theorem repair_leaves_no_due_split (path : Path α) (valid : path.Valid) (before : Ranking)
    (was : path.rankings[player]? = some before) : ∃ repaired events after,
      path.repair player step = .ok (repaired, events) ∧ repaired.rankings[player]? = some after ∧
      (∀ place members, after.classes[place]? = some members →
        (.merged step player place path.lambda ∈ events ↔ ¬ Ranking.Within members before.classes) ∧
        (Ranking.Within members before.classes → 1 < members.length → ∃ ranked,
          after.rankOffset place = .ok ranked ∧ repaired.splitPoint? player members ranked = .ok none)) ∧
      repaired.profile = path.profile ∧ repaired.lambda = path.lambda ∧
      (∀ other, other ≠ player → repaired.rankings[other]? = path.rankings[other]?) ∧
      repaired.merges = path.merges + events.countP Event.isMerge ∧
      repaired.orientation = (fun bearing => -bearing)^[events.countP Event.isMerge] path.orientation := by
  have inside : player < path.rankings.length := (List.getElem?_eq_some_iff.mp was).1
  obtain ⟨⟨repaired, events⟩, run, -, -, size⟩ := repair_succeeds path valid player step inside
  have now : player < repaired.rankings.length := size ▸ inside
  obtain ⟨profile, lambda⟩ := repair_stays path player step _ run
  obtain ⟨merges, orientation⟩ := repair_turns path player step _ run
  refine ⟨repaired, events, repaired.rankings[player], run, List.getElem?_eq_getElem now, ?_, profile, lambda,
    repair_others path valid player step _ run, merges, orientation⟩
  intro place members found
  have there : place ≤ repaired.rankings[player].size := Nat.le_of_lt (List.getElem?_eq_some_iff.mp found).1
  cases repair_passes player step path valid before _ repaired events was run (List.getElem?_eq_getElem now) place
    members found with
  | merged entered joined =>
      rw [← lambda]
      exact ⟨iff_of_true entered joined, fun within => absurd within joined⟩
  | settled absent within undue =>
      rw [← lambda]
      exact ⟨iff_of_false absent (not_not_intro within), fun _ several =>
        ⟨_, Ranking.rank_offset_inside _ place there, undue several⟩⟩

-- Three quarters are more than the first of three ranks weighs, so that the class does not stay as it was.
theorem repair_leaves_no_due_split_favourite :
    ∃ (path repaired : Path Float) (events : List (Event Float)) (after : Ranking),
      path.rankings = [⟨[[0, 1, 2]]⟩] ∧ path.repair 0 1 = .ok (repaired, events) ∧
      repaired.rankings[0]? = some after ∧ after.classes ≠ [[0, 1, 2]] := by
  let path : Path Float :=
    { profile :=
        { table := { dims := [3], cells := #[none, none, none], scale := 0 }
          probabilities := [0.125, 0.75, 0.125] }
      lambda := 0.5
      orientation := 1
      rankings := [⟨[[0, 1, 2]]⟩]
      pending := none
      merges := 0
      splits := 0 }
  have complete : path.table.Complete := by
    refine ⟨rfl, fun payoffs listed => ?_⟩
    simp [path, table] at listed
  have ranked : Ranking.Valid ⟨[[0, 1, 2]]⟩ 3 := by
    refine ⟨by decide, by decide, List.pairwise_singleton _ _, fun strategy => ?_⟩
    simp only [List.flatten_cons, List.flatten_nil, List.append_nil, List.mem_cons, List.not_mem_nil, or_false]
    omega
  have valid : path.Valid := by
    refine ⟨⟨complete, rfl⟩, by decide, .cons ranked .nil, fun change pending => ?_⟩
    cases pending
  have leads : path.ByProbability 0 [0, 1, 2] [(0.75, 1), (0.125, 0), (0.125, 2)] := by
    refine ⟨?_, by decide, by decide +kernel⟩
    simp only [List.forall_mem_cons, Weighs]
    exact ⟨rfl, rfl, rfl, fun pair listed => absurd listed List.not_mem_nil⟩
  have due : path.splitPoint? 0 [0, 1, 2] 0 = .ok (some [1]) := by
    rw [split_point_eq path 0 [0, 1, 2] (by decide) (by decide) 0 _ leads]
    have first : path.groupEarns 0 0 [(0.75, 1), (0.125, 0), (0.125, 2)] 1 = true := by decide +kernel
    have places : List.range' 1 ([0, 1, 2].length - 1) = [1, 2] := rfl
    rw [places, List.find?_cons_of_pos first]
    rfl
  obtain ⟨repaired, events, after, run, now, passed, profile, lambda, -⟩ :=
    repair_leaves_no_due_split 0 1 path valid ⟨[[0, 1, 2]]⟩ rfl
  refine ⟨path, repaired, events, after, rfl, run, now, fun whole => ?_⟩
  obtain ⟨-, undue⟩ := passed 0 [0, 1, 2] (by rw [whole]; rfl)
  obtain ⟨rank, offset, none⟩ := undue ⟨[0, 1, 2], List.mem_singleton_self _, fun strategy member => member⟩ (by decide)
  have same : rank = 0 := by
    rw [Ranking.rank_offset_inside after 0 (Nat.zero_le _), List.take_zero] at offset
    exact (Except.ok.inj offset).symm
  rw [same, split_point_of_place path repaired profile lambda, due] at none
  cases none

end NormalForm.Path
