import NormalForm.Proofs.Path.Splitting

/-!
How long a repair takes. Every split leaves a scan one more class to pass and every merge one fewer, while the
scan moves on by one place, so that neither the number of classes nor the distance to the last of them measures
what is left. But the classes passed so far are all there, and there are never more classes than strategies: a
scan takes as many turns as it leaves classes. A turn changes the ranking at most once, and never where every
strategy has a class and the last of them is visited.
-/

set_option autoImplicit false

namespace NormalForm.Path

variable {α : Type}

-- The merges and splits in a log.
def changesIn (events : List (Event α)) : Nat := events.countP Event.isMerge + events.countP Event.isSplit

variable [Scalar α]

-- What a scan from the best class down comes to. The rank of the next class is the number of turns taken.
inductive Scanned (player step : Nat) (first : Visit α) : Nat → Visit α → Prop where
  | start : Scanned player step first 0 first
  | turn (turns : Nat) (visit after : Visit α) (before : Scanned player step first turns visit)
      (inside : turns < visit.ranking.size) (done : visitClass player step turns visit = .ok after) :
      Scanned player step first (turns + 1) after

theorem visit_from_scanned (player step : Nat) (first last : Visit α)
    (run : visitFrom player step 0 first = .ok last) :
    ∃ turns, last.ranking.size ≤ turns ∧ Scanned player step first turns last :=
  visit_from_holds player step (Scanned player step first)
    (fun turns visit after inside before done => .turn turns visit after before inside done) 0 first last .start run

-- In the place of the class that a turn visits there is still one.
theorem visit_class_passes (player step rank : Nat) (visit after : Visit α) (inside : rank < visit.ranking.size)
    (run : visitClass player step rank visit = .ok after) : rank < after.ranking.size := by
  have replaced (members : List Nat) (rest : List (List Nat)) :
      rank < (visit.ranking.classes.take rank ++ members :: rest).length := by
    rw [List.length_append, List.length_take_of_le (Nat.le_of_lt inside), List.length_cons]
    omega
  cases visit_class_rearranges player step rank visit after run with
  | kept _ same => rwa [same]
  | merged upper lower rest _ classes =>
      rw [Ranking.size, classes]
      exact replaced _ rest
  | parted members top rest _ _ _ _ classes =>
      rw [Ranking.size, classes]
      exact replaced _ _

-- What the turns of a scan amount to, where the player has `n` strategies and the path was `path` before.
structure Visit.Amounts (visit : Visit α) (path : Path α) (n turns : Nat) : Prop where
  passed : turns ≤ visit.ranking.size
  once : changesIn visit.events ≤ turns
  spared : changesIn visit.events ≤ n - 1
  merges : visit.path.merges = path.merges + visit.events.countP Event.isMerge
  splits : visit.path.splits = path.splits + visit.events.countP Event.isSplit

-- Where a turn changes the ranking there is a class below the one at hand, before a merge or after a split, so
-- that it is not the last turn that `n` strategies allow.
theorem visit_class_amounts (player step rank n : Nat) (path : Path α) (visit after : Visit α)
    (inside : rank < visit.ranking.size) (before : visit.Fits player n ∧ visit.Amounts path n rank)
    (run : visitClass player step rank visit = .ok after) :
    after.Fits player n ∧ after.Amounts path n (rank + 1) := by
  obtain ⟨fits, amounts⟩ := before
  obtain ⟨afterFits, -⟩ := visit_class_fits player step rank n visit after fits inside run
  have passed := visit_class_passes player step rank visit after inside run
  have most := visit.ranking.valid_size_le n fits.ranked
  have mostAfter := after.ranking.valid_size_le n afterFits.ranked
  obtain ⟨-, once, spared, countedMerges, countedSplits⟩ := amounts
  refine ⟨afterFits, ?_⟩
  cases visit_class_records player step rank visit after run with
  | kept same =>
      subst same
      exact ⟨passed, Nat.le_succ_of_le once, spared, countedMerges, countedSplits⟩
  | merged _ _ _ _ size merges splits events =>
      have further : rank + 1 < n := by omega
      have moreMerges : after.events.countP Event.isMerge = visit.events.countP Event.isMerge + 1 := by
        simp [events, Event.isMerge]
      have sameSplits : after.events.countP Event.isSplit = visit.events.countP Event.isSplit := by
        simp [events, Event.isSplit]
      have oneMore : changesIn after.events = changesIn visit.events + 1 := by
        simp only [changesIn, moreMerges, sameSplits]
        omega
      constructor <;> omega
  | parted _ _ _ _ _ _ size merges splits events =>
      have further : rank + 1 < n := by omega
      have sameMerges : after.events.countP Event.isMerge = visit.events.countP Event.isMerge := by
        simp [events, Event.isMerge]
      have moreSplits : after.events.countP Event.isSplit = visit.events.countP Event.isSplit + 1 := by
        simp [events, Event.isSplit]
      have oneMore : changesIn after.events = changesIn visit.events + 1 := by
        simp only [changesIn, sameMerges, moreSplits]
        omega
      constructor <;> omega

-- The induction is on the turns of the scan.
theorem scanned_amounts (player step n : Nat) (path : Path α) (first : Visit α)
    (begins : first.Fits player n ∧ first.Amounts path n 0) (turns : Nat) (visit : Visit α)
    (scanned : Scanned player step first turns visit) : visit.Fits player n ∧ visit.Amounts path n turns := by
  induction scanned with
  | start => exact begins
  | turn turns visit after _ inside done ih =>
      exact visit_class_amounts player step turns n path visit after inside ih done

/-! A repair that takes all its turns. -/

-- The last class is compared with none, so that a split of it that is due takes place.
theorem last_class_parts (player step n : Nat) (visit : Visit α) (fits : visit.Fits player n) (above : List (List Nat))
    (members top : List Nat) (classes : visit.ranking.classes = above ++ [members]) (several : 1 < members.length)
    (due : visit.path.splitPoint? player members above.flatten.length = .ok (some top)) :
    ∃ after, visitClass player step above.length visit = .ok after ∧ after.Fits player n ∧
      SamePlace visit.path after.path ∧
      after.ranking.classes = above ++ [Ranking.ofMembers top, Ranking.others top members] ∧
      changesIn after.events = changesIn visit.events + 1 := by
  have inside : above.length < visit.ranking.size := by simp [Ranking.size, classes]
  have left : visit.ranking.classes.take above.length = above := by simp [classes]
  have last : visit.ranking.classes.drop above.length = [members] := by simp [classes]
  obtain ⟨after, run, -⟩ := visit_class_succeeds player step above.length n visit fits.valid fits.ranked fits.known inside
  obtain ⟨afterFits, place⟩ := visit_class_fits player step above.length n visit after fits inside run
  refine ⟨after, run, afterFits, place, ?_⟩
  cases visit_class_visited player step above.length visit after run with
  | kept _ settled =>
      have undue := settled members (by simp [classes]) several
      rw [left, due] at undue
      cases undue
  | merged upper lower rest dropped =>
      rw [last] at dropped
      cases dropped
  | parted whole leaders rest _ _ dropped tried _ parts events =>
      rw [last] at dropped
      cases dropped
      rw [left, due] at tried
      cases tried
      refine ⟨by rw [parts, left], ?_⟩
      simp [changesIn, events, Event.isMerge, Event.isSplit]
      omega

-- Three strategies that tie. Two hold more than their ranks weigh, and what the third holds is no number.
def crowded : Path Float :=
  { profile :=
      { table := { dims := [3], cells := #[none, none, none], scale := 0 }
        probabilities := [0.625, 0.3125, 0.0 / 0.0] }
    lambda := 0.5
    orientation := 1
    rankings := [⟨[[0, 1, 2]]⟩]
    pending := none
    merges := 0
    splits := 0 }

theorem crowded_valid : crowded.Valid := by
  have complete : crowded.table.Complete := by
    refine ⟨rfl, fun payoffs listed => ?_⟩
    simp [crowded, table] at listed
  have ranked : Ranking.Valid ⟨[[0, 1, 2]]⟩ 3 := by
    refine ⟨by decide, by decide, List.pairwise_singleton _ _, fun strategy => ?_⟩
    simp
    omega
  refine ⟨⟨complete, rfl⟩, by decide, .cons ranked .nil, fun change pending => ?_⟩
  cases pending

theorem crowded_due : crowded.splitPoint? 0 [0, 1, 2] 0 = .ok (some [0]) ∧
    crowded.splitPoint? 0 [1, 2] 1 = .ok (some [1]) := by
  have all : crowded.ByProbability 0 [0, 1, 2] [(0.625, 0), (0.3125, 1), (0.0 / 0.0, 2)] := by
    refine ⟨?_, by decide, by decide +kernel⟩
    simp only [List.forall_mem_cons, Weighs]
    exact ⟨rfl, rfl, rfl, fun pair listed => absurd listed List.not_mem_nil⟩
  have others : crowded.ByProbability 0 [1, 2] [(0.3125, 1), (0.0 / 0.0, 2)] :=
    ⟨fun pair listed => all.weighs pair (List.mem_cons_of_mem _ listed), by decide, all.ordered.of_cons⟩
  have first : crowded.groupEarns 0 0 [(0.625, 0), (0.3125, 1), (0.0 / 0.0, 2)] 1 = true := by decide +kernel
  have second : crowded.groupEarns 0 1 [(0.3125, 1), (0.0 / 0.0, 2)] 1 = true := by decide +kernel
  constructor
  · simp [split_point_eq crowded 0 [0, 1, 2] (by decide) (by decide) 0 _ all, List.range'_succ, first]
  · simp [split_point_eq crowded 0 [1, 2] (by decide) (by decide) 1 _ others, List.range'_succ, second]

-- Each of the first two turns parts the last class, and the third finds a single strategy.
theorem crowded_repaired (step : Nat) : ∃ repaired events, crowded.repair 0 step = .ok (repaired, events) ∧
    repaired.rankings = [⟨[[0], [1], [2]]⟩] ∧ changesIn events = 2 := by
  obtain ⟨firstDue, secondDue⟩ := crowded_due
  let start : Visit Float := { path := crowded, ranking := ⟨[[0, 1, 2]]⟩, events := [] }
  have fits : start.Fits 0 3 := ⟨crowded_valid, (valid_ranking crowded crowded_valid 0 _ rfl).2, rfl⟩
  obtain ⟨first, firstRun, firstFits, firstPlace, firstClasses, firstChanged⟩ :=
    last_class_parts 0 step 3 start fits [] [0, 1, 2] [0] rfl (by decide) firstDue
  have stillDue : first.path.splitPoint? 0 [1, 2] 1 = .ok (some [1]) := by
    rw [split_point_of_place crowded first.path firstPlace.profile firstPlace.lambda, secondDue]
  obtain ⟨second, secondRun, -, secondPlace, secondClasses, secondChanged⟩ :=
    last_class_parts 0 step 3 first firstFits [[0]] [1, 2] [1] firstClasses (by decide) stillDue
  have ranking : second.ranking = ⟨[[0], [1], [2]]⟩ := congrArg Ranking.mk secondClasses
  have size : second.ranking.size = 3 := by simp [ranking, Ranking.size]
  have third : visitClass 0 step 2 second = .ok second := by
    have alone : second.path.flipped 0 second.ranking 2 = .ok false := by simp [flipped, size]
    have read : second.ranking.members 2 = .ok [2] := by simp [ranking, Ranking.members, entry]
    simp [visitClass, alone, read]
  have scanned : visitFrom 0 step 0 start = .ok second := by
    have inside : 1 < first.ranking.size := by simp [Ranking.size, firstClasses]
    rw [visit_from_next 0 step 0 start first Nat.one_pos firstRun,
      visit_from_next 0 step 1 first second inside secondRun,
      visit_from_next 0 step 2 second second (by omega) third, visitFrom, dif_neg (by omega)]
  have read : entry crowded.rankings 0 = .ok start.ranking := rfl
  have rankings : second.path.rankings = [⟨[[0, 1, 2]]⟩] := secondPlace.rankings.trans firstPlace.rankings
  have unchanged : changesIn start.events = 0 := rfl
  refine ⟨_, _, by rw [repair, read, ok_bind, scanned, ok_bind], ?_, by omega⟩
  simp [rankings, ranking]

theorem repair_scan_bounded (path : Path α) (valid : path.Valid) (player step : Nat) (before : Ranking)
    (was : path.rankings[player]? = some before) : ∃ (turns : Nat) (last : Visit α),
      Scanned player step { path, ranking := before, events := [] } turns last ∧ turns = last.ranking.size ∧
      path.repair player step =
        .ok ({ last.path with rankings := path.rankings.set player last.ranking }, last.events) ∧
      turns ≤ path.table.strategyCount player ∧ changesIn last.events ≤ path.table.strategyCount player - 1 ∧
      last.path.merges = path.merges + last.events.countP Event.isMerge ∧
      last.path.splits = path.splits + last.events.countP Event.isSplit := by
  obtain ⟨inside, ranked⟩ := valid_ranking path valid player before was
  have known := path.table.strategy_count_inside player inside
  obtain ⟨last, run, keeps⟩ := visit_from_succeeds player step 0 _ { path, ranking := before, events := [] } valid ranked
    known
  obtain ⟨turns, ended, scanned⟩ := visit_from_scanned player step _ last run
  have nothing : Visit.Amounts { path, ranking := before, events := [] } path (path.table.strategyCount player) 0 :=
    ⟨Nat.zero_le _, Nat.le_refl 0, Nat.zero_le _, rfl, rfl⟩
  obtain ⟨-, amounts⟩ := scanned_amounts player step _ path _ ⟨⟨valid, ranked, known⟩, nothing⟩ turns last scanned
  have whole : turns = last.ranking.size := Nat.le_antisymm amounts.passed ended
  have most := last.ranking.valid_size_le _ keeps.ranking
  refine ⟨turns, last, scanned, whole, ?_, whole ▸ most, amounts.spared, amounts.merges, amounts.splits⟩
  rw [repair, (entry_eq_ok _ _ _).mpr was, ok_bind, run, ok_bind, keeps.place.rankings]

theorem repair_scan_bounded_crowded : ∃ (turns : Nat) (last : Visit Float),
    Scanned 0 1 { path := crowded, ranking := ⟨[[0, 1, 2]]⟩, events := [] } turns last ∧
      crowded.repair 0 1 = .ok ({ last.path with rankings := [last.ranking] }, last.events) ∧
      turns = crowded.table.strategyCount 0 ∧ changesIn last.events = crowded.table.strategyCount 0 - 1 := by
  obtain ⟨turns, last, scanned, whole, run, -⟩ := repair_scan_bounded crowded crowded_valid 0 1 ⟨[[0, 1, 2]]⟩ rfl
  obtain ⟨repaired, events, sameRun, rankings, twice⟩ := crowded_repaired 1
  cases run.symm.trans sameRun
  have ranking : last.ranking = ⟨[[0], [1], [2]]⟩ := List.head_eq_of_cons_eq rankings
  exact ⟨turns, last, scanned, run, by rw [whole, ranking]; rfl, twice⟩

end NormalForm.Path
