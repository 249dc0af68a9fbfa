import NormalForm.Path.Repair
import NormalForm.Proofs.Path.Equations

/-!
A step from a valid path never faults and leaves a valid path: the matrix can be built, the direction
has an entry per strategy and one for lambda, and repair merges and parts classes only where that is
allowed. A step moves the profile along the tangent or not at all; repair leaves it alone.
-/

set_option autoImplicit false

namespace NormalForm.Path

variable {α : Type}

theorem fits_of_first (table : PayoffTable α) (pending : Option Restructure) (change : Restructure)
    (old : ∀ other ∈ pending, other.Fits table) (new : change.Fits table) :
    ∀ other ∈ pending <|> some change, other.Fits table := by
  intro other member
  cases pending with
  | none => exact Option.mem_some.mp member ▸ new
  | some first => exact old other member

-- Where a walk stands, apart from its bearing and its pending change.
structure SamePlace (before after : Path α) : Prop where
  profile : after.profile = before.profile
  lambda : after.lambda = before.lambda
  rankings : after.rankings = before.rankings

theorem same_place_valid (before after : Path α) (valid : before.Valid) (same : SamePlace before after)
    (pending : ∀ change ∈ after.pending, change.Fits before.table) : after.Valid := by
  have table : after.table = before.table := congrArg Mixed.table same.profile
  exact ⟨same.profile ▸ valid.profile, table ▸ valid.words, by rw [same.rankings, table]; exact valid.rankings,
    table ▸ pending⟩

-- What every visit of a class keeps: a valid path that stays where it is, and a valid ranking.
structure Visit.Keeps (before after : Visit α) (n : Nat) : Prop where
  path : after.path.Valid
  place : SamePlace before.path after.path
  ranking : after.ranking.Valid n

theorem keeps_refl (visit : Visit α) (n : Nat) (valid : visit.path.Valid) (ranked : visit.ranking.Valid n) :
    visit.Keeps visit n :=
  ⟨valid, ⟨rfl, rfl, rfl⟩, ranked⟩

theorem keeps_trans (first second third : Visit α) (n : Nat) (left : first.Keeps second n)
    (right : second.Keeps third n) : first.Keeps third n :=
  ⟨right.path, ⟨right.place.profile.trans left.place.profile, right.place.lambda.trans left.place.lambda,
    right.place.rankings.trans left.place.rankings⟩, right.ranking⟩

variable [Scalar α]

/-! Directions. -/

theorem tangent_length (orientation : α) (rows : List (List α)) :
    (tangent orientation rows).length = rows.length + 1 := by
  rw [tangent, List.length_map, List.length_range]

theorem gap_terms_succeed (path : Path α) (valid : path.Valid) (player upper lower other : Nat)
    (direction : List α) (length : direction.length = path.table.dims.total + 1)
    (upperBelow : upper < path.table.strategyCount player)
    (lowerBelow : lower < path.table.strategyCount player) (inside : other < path.table.dims.length) :
    ∃ terms, path.gapTerms player upper lower direction other = .ok terms := by
  have known := path.table.strategy_count_inside other inside
  obtain ⟨terms, run, -⟩ := map_m_succeeds (List.range (path.table.strategyCount other))
    (fun strategy => do
      let upperRate ← path.profile.derivative player upper other strategy
      let lowerRate ← path.profile.derivative player lower other strategy
      let rate ← entry direction (path.table.dims.offset other + strategy)
      .ok ((upperRate - lowerRate) * rate))
    (fun _ _ => True) fun strategy listed => by
      have below := List.mem_range.mp listed
      obtain ⟨upperRate, upperRun⟩ := path.profile.derivative_succeeds valid.profile player upper other
        strategy upperBelow below
      obtain ⟨lowerRate, lowerRun⟩ := path.profile.derivative_succeeds valid.profile player lower other
        strategy lowerBelow below
      have place := Dimensions.offset_lt_total _ other strategy _ known below
      have column : path.table.dims.offset other + strategy < direction.length := by omega
      exact ⟨_, by rw [upperRun, ok_bind, lowerRun, ok_bind, entry_inside _ _ column, ok_bind], trivial⟩
  exact ⟨terms, by rw [gapTerms, path.profile.offset_inside other inside, ok_bind]; exact run⟩

theorem heading_succeeds (path : Path α) (valid : path.Valid) (change : Restructure)
    (direction : List α) (fits : change.Fits path.table)
    (length : direction.length = path.table.dims.total + 1) :
    ∃ rate, path.heading change direction = .ok rate := by
  cases change with
  | start => exact ⟨_, rfl⟩
  | merged player upper =>
      obtain ⟨inside, below⟩ := fits
      have known := path.table.strategy_count_inside player inside
      obtain ⟨rates, run, -⟩ := map_m_succeeds upper
        (fun strategy => entry direction (path.profile.table.dims.offset player + strategy))
        (fun _ _ => True)
        fun strategy member => by
          have place := Dimensions.offset_lt_total _ player strategy _ known (below strategy member)
          have column : path.table.dims.offset player + strategy < direction.length := by omega
          exact ⟨_, entry_inside direction _ column, trivial⟩
      exact ⟨_, by rw [heading, path.profile.offset_inside player inside, ok_bind, run, ok_bind]⟩
  | parted player upper lower =>
      obtain ⟨upperBelow, lowerBelow⟩ := fits
      obtain ⟨terms, run, -⟩ := map_m_succeeds
        ((List.range path.profile.players).filter fun other => other != player)
        (path.gapTerms player upper lower direction) (fun _ _ => True) fun other member => by
          have inside := List.mem_range.mp (List.mem_filter.mp member).1
          obtain ⟨terms, here⟩ := gap_terms_succeed path valid player upper lower other direction length
            upperBelow lowerBelow inside
          exact ⟨terms, here, trivial⟩
      exact ⟨_, by rw [heading, run, ok_bind]⟩

def SameUpToSign (direction other : List α) : Prop := other = direction ∨ other = direction.map (- ·)

theorem orient_succeeds (path : Path α) (valid : path.Valid) (direction : List α)
    (length : direction.length = path.table.dims.total + 1) :
    ∃ oriented, path.orient direction = .ok oriented ∧ SamePlace path oriented.path ∧
      oriented.path.pending = none ∧ SameUpToSign direction oriented.direction := by
  cases pending : path.pending with
  | none => exact ⟨⟨path, direction, none⟩, by rw [orient, pending], ⟨rfl, rfl, rfl⟩, pending, Or.inl rfl⟩
  | some change =>
      obtain ⟨rate, run⟩ := heading_succeeds path valid change direction (valid.pending change pending) length
      simp only [orient, pending, run, ok_bind]
      generalize Arithmetic.lt _ (Arithmetic.zero : α) = backwards
      cases backwards with
      | true =>
          refine ⟨_, if_pos rfl, ?_, ?_, ?_⟩
          · exact ⟨rfl, rfl, rfl⟩
          · rfl
          · exact Or.inr rfl
      | false =>
          refine ⟨_, if_neg Bool.false_ne_true, ?_, ?_, ?_⟩
          · exact ⟨rfl, rfl, rfl⟩
          · rfl
          · exact Or.inl rfl

theorem move_succeeds (path : Path α) (valid : path.Valid) (direction : List α) (stepSize size : α)
    (length : direction.length = path.table.dims.total + 1) :
    ∃ rate, direction[path.table.dims.total]? = some rate ∧
      path.move direction stepSize size = .ok
        { path with
          profile :=
            { path.profile with
              probabilities := List.zipWith (· + ·) path.profile.probabilities
                ((direction.take path.table.dims.total).map fun t => t * (stepSize / size)) }
          lambda := path.lambda + rate * (stepSize / size) } := by
  have columns : direction.length - 1 = path.table.dims.total := by omega
  have inside : path.table.dims.total < direction.length := by omega
  refine ⟨direction[path.table.dims.total], List.getElem?_eq_getElem inside, ?_⟩
  have sizes : ((direction.take path.table.dims.total).map fun t => t * (stepSize / size)).length =
      path.profile.probabilities.length := by
    rw [List.length_map, List.length_take, valid.profile.length]
    exact Nat.min_eq_left (Nat.le_of_lt inside)
  simp only [move, columns, Mixed.add, if_pos sizes, ok_bind, entry_inside direction _ inside]

theorem move_valid (path : Path α) (valid : path.Valid) (steps : List α) (lambda : α)
    (length : steps.length = path.table.dims.total) :
    Valid { path with
      profile :=
        { path.profile with probabilities := List.zipWith (· + ·) path.profile.probabilities steps }
      lambda } := by
  refine ⟨⟨valid.profile.table, ?_⟩, valid.words, valid.rankings, valid.pending⟩
  simp only [List.length_zipWith, valid.profile.length, length]
  exact Nat.min_self _

/-! Leading groups. -/

theorem leaders_from_prefix (lambda weights : α) (rank : Nat) (target mass : α) (taken top : List Nat)
    (sorted : List (α × Nat)) (found : leadersFrom lambda weights rank target mass taken sorted = some top) :
    ∃ count, 0 < count ∧ count < sorted.length ∧ top = taken ++ (sorted.map Prod.snd).take count := by
  fun_induction leadersFrom lambda weights rank target mass taken sorted with
  | case1 rank target mass taken probability strategy next rest target' mass' taken' reached =>
      rw [← Option.some.inj found]
      exact ⟨1, Nat.one_pos, by simp, by simp [taken']⟩
  | case2 rank target mass taken probability strategy next rest target' mass' taken' reached ih =>
      obtain ⟨count, positive, proper, rfl⟩ := ih found
      refine ⟨count + 1, Nat.succ_pos count, by simpa using proper, ?_⟩
      simp [taken']
  | case3 => cases found

theorem by_probability_succeeds (path : Path α)
    (entries : path.profile.probabilities.length = path.table.dims.total) (player : Nat) (members : List Nat)
    (below : ∀ strategy ∈ members, strategy < path.table.strategyCount player) :
    ∃ sorted, path.byProbability player members = .ok sorted ∧ (sorted.map Prod.snd).Perm members := by
  obtain ⟨weighed, run, each⟩ := map_m_succeeds members
    (fun strategy => do
      let probability ← path.profile.probability player strategy
      .ok (probability, strategy))
    (fun strategy pair => pair.2 = strategy) fun strategy member => by
      obtain ⟨probability, here⟩ := path.profile.probability_succeeds player strategy entries
        (below strategy member)
      exact ⟨(probability, strategy), by rw [here, ok_bind], rfl⟩
  have names : weighed.map Prod.snd = members := by
    clear run
    induction each with
    | nil => rfl
    | cons here _ ih => rw [List.map_cons, here, ih fun strategy member =>
        below strategy (List.mem_cons_of_mem _ member)]
  refine ⟨weighed.mergeSort Ranking.ranksBefore, by rw [byProbability, run, ok_bind], ?_⟩
  have perm := (List.mergeSort_perm weighed Ranking.ranksBefore).map Prod.snd
  rwa [names] at perm

theorem split_point_succeeds (path : Path α) (valid : path.Valid) (player : Nat) (members : List Nat)
    (ranked : Nat) (nonempty : members ≠ [])
    (below : ∀ strategy ∈ members, strategy < path.table.strategyCount player) :
    ∃ point, path.splitPoint? player members ranked = .ok point ∧
      ∀ top ∈ point, top ≠ [] ∧ top.length < members.length ∧ ∀ strategy ∈ top, strategy ∈ members := by
  obtain ⟨sorted, run, perm⟩ := by_probability_succeeds path valid.profile.length player members below
  have size := perm.length_eq
  rw [List.length_map] at size
  have some : ¬ sorted.isEmpty = true := by
    intro empty
    rw [List.isEmpty_iff.mp empty, List.length_nil] at size
    exact nonempty (List.eq_nil_of_length_eq_zero size.symm)
  refine ⟨_, by rw [splitPoint?, run, ok_bind, if_neg some], ?_⟩
  intro top found
  obtain ⟨count, positive, proper, rfl⟩ := leaders_from_prefix _ _ _ _ _ _ _ _ found
  have length : ([] ++ (sorted.map Prod.snd).take count).length = count := by
    rw [List.nil_append, List.length_take, List.length_map]
    omega
  refine ⟨?_, by omega, ?_⟩
  · intro empty
    rw [empty, List.length_nil] at length
    omega
  · intro strategy member
    exact perm.mem_iff.mp (List.mem_of_mem_take member)

/-! Repair. -/

theorem flipped_succeeds (path : Path α) (valid : path.Valid) (player n rank : Nat) (ranking : Ranking)
    (ranked : ranking.Valid n) (count : path.table.strategyCount player = n) :
    ∃ swap, path.flipped player ranking rank = .ok swap ∧ (swap = true → rank + 1 < ranking.size) := by
  by_cases inside : rank + 1 < ranking.size
  · obtain ⟨upper, upperRead, upperListed⟩ := Ranking.members_inside ranking rank (Nat.lt_of_succ_lt inside)
    obtain ⟨lower, lowerRead, lowerListed⟩ := Ranking.members_inside ranking (rank + 1) inside
    have value : ∀ members ∈ ranking.classes, ∃ first worth, Ranking.representative members = .ok first ∧
        path.profile.strategyValue player first = .ok worth := by
      intro members listed
      obtain ⟨first, chosen, member⟩ := Ranking.representative_member members (ranked.nonempty members listed)
      have below := Ranking.valid_member_lt ranking n ranked members listed first member
      obtain ⟨worth, run⟩ := path.profile.strategy_value_succeeds valid.profile player first (count.symm ▸ below)
      exact ⟨first, worth, chosen, run⟩
    obtain ⟨upperFirst, upperWorth, upperChosen, upperRun⟩ := value upper upperListed
    obtain ⟨lowerFirst, lowerWorth, lowerChosen, lowerRun⟩ := value lower lowerListed
    refine ⟨Arithmetic.le upperWorth lowerWorth, ?_, fun _ => inside⟩
    simp only [flipped, if_pos inside, upperRead, lowerRead, upperChosen, lowerChosen, upperRun, lowerRun,
      ok_bind]
  · exact ⟨false, by rw [flipped, if_neg inside], nofun⟩

theorem merge_class_succeeds (player step rank n : Nat) (visit : Visit α) (valid : visit.path.Valid)
    (ranked : visit.ranking.Valid n) (known : visit.path.table.dims[player]? = some n)
    (inside : rank + 1 < visit.ranking.size) :
    ∃ after, mergeClass player step rank visit = .ok after ∧ visit.Keeps after n := by
  have count := visit.path.table.strategy_count_known player n known
  have word := valid.words n (List.mem_of_getElem? known)
  obtain ⟨upper, read, listed⟩ := Ranking.members_inside visit.ranking rank (Nat.lt_of_succ_lt inside)
  obtain ⟨merged, run, mergedValid⟩ := Ranking.merge_valid visit.ranking n rank ranked inside word
  rw [mergeClass, read, ok_bind, run, ok_bind]
  refine ⟨_, rfl, ?_, ⟨rfl, rfl, rfl⟩, mergedValid⟩
  have fits : Restructure.Fits visit.path.table (.merged player upper) :=
    ⟨(List.getElem?_eq_some_iff.mp known).1, fun strategy member =>
      count.symm ▸ Ranking.valid_member_lt visit.ranking n ranked upper listed strategy member⟩
  exact same_place_valid visit.path _ valid ⟨rfl, rfl, rfl⟩
    (fits_of_first visit.path.table visit.path.pending _ valid.pending fits)

theorem split_class_succeeds (player step rank n : Nat) (visit : Visit α) (valid : visit.path.Valid)
    (ranked : visit.ranking.Valid n) (known : visit.path.table.dims[player]? = some n)
    (inside : rank < visit.ranking.size) :
    ∃ after, splitClass player step rank visit = .ok after ∧ visit.Keeps after n := by
  have count := visit.path.table.strategy_count_known player n known
  obtain ⟨members, read, listed⟩ := Ranking.members_inside visit.ranking rank inside
  have below : ∀ strategy ∈ members, strategy < visit.path.table.strategyCount player :=
    fun strategy member => count.symm ▸ Ranking.valid_member_lt visit.ranking n ranked members listed strategy member
  have offset := Ranking.rank_offset_inside visit.ranking rank (Nat.le_of_lt inside)
  obtain ⟨point, pointRun, proper⟩ := split_point_succeeds visit.path valid player members _
    (ranked.nonempty members listed) below
  cases point with
  | none =>
      exact ⟨visit, by rw [splitClass, read, ok_bind, offset, ok_bind, pointRun, ok_bind],
        keeps_refl visit n valid ranked⟩
  | some top =>
      obtain ⟨leaders, shorter, within⟩ := proper top rfl
      obtain ⟨parted, splitRun, partedValid, lowerInside⟩ :=
        Ranking.split_valid visit.ranking n rank members top ranked read leaders shorter within
      have first : ∀ place < parted.size, ∃ part strategy, parted.members place = .ok part ∧
          Ranking.representative part = .ok strategy ∧ strategy < n := by
        intro place placed
        obtain ⟨part, partRead, partListed⟩ := Ranking.members_inside parted place placed
        obtain ⟨strategy, chosen, member⟩ := Ranking.representative_member part
          (partedValid.nonempty part partListed)
        exact ⟨part, strategy, partRead, chosen,
          Ranking.valid_member_lt parted n partedValid part partListed strategy member⟩
      obtain ⟨upper, upperFirst, upperRead, upperChosen, upperBelow⟩ := first rank (Nat.lt_of_succ_lt lowerInside)
      obtain ⟨lower, lowerFirst, lowerRead, lowerChosen, lowerBelow⟩ := first (rank + 1) lowerInside
      simp only [splitClass, read, offset, pointRun, splitRun, upperRead, lowerRead, upperChosen,
        lowerChosen, ok_bind]
      refine ⟨_, rfl, ?_, ⟨rfl, rfl, rfl⟩, partedValid⟩
      have fits : Restructure.Fits visit.path.table (.parted player upperFirst lowerFirst) :=
        ⟨count.symm ▸ upperBelow, count.symm ▸ lowerBelow⟩
      exact same_place_valid visit.path _ valid ⟨rfl, rfl, rfl⟩
        (fits_of_first visit.path.table visit.path.pending _ valid.pending fits)

theorem visit_class_succeeds (player step rank n : Nat) (visit : Visit α) (valid : visit.path.Valid)
    (ranked : visit.ranking.Valid n) (known : visit.path.table.dims[player]? = some n)
    (inside : rank < visit.ranking.size) :
    ∃ after, visitClass player step rank visit = .ok after ∧ visit.Keeps after n := by
  have count := visit.path.table.strategy_count_known player n known
  obtain ⟨swap, run, below⟩ := flipped_succeeds visit.path valid player n rank visit.ranking ranked count
  rw [visitClass, run, ok_bind]
  cases swap with
  | true =>
      rw [if_pos rfl]
      exact merge_class_succeeds player step rank n visit valid ranked known (below rfl)
  | false =>
      obtain ⟨members, read, -⟩ := Ranking.members_inside visit.ranking rank inside
      rw [if_neg Bool.false_ne_true, read, ok_bind]
      split
      · exact split_class_succeeds player step rank n visit valid ranked known inside
      · exact ⟨visit, rfl, keeps_refl visit n valid ranked⟩

theorem visit_from_succeeds (player step rank n : Nat) (visit : Visit α) (valid : visit.path.Valid)
    (ranked : visit.ranking.Valid n) (known : visit.path.table.dims[player]? = some n) :
    ∃ after, visitFrom player step rank visit = .ok after ∧ visit.Keeps after n := by
  by_cases inside : rank < visit.ranking.size
  · obtain ⟨next, run, keeps⟩ := visit_class_succeeds player step rank n visit valid ranked known inside
    have table : next.path.table = visit.path.table := congrArg Mixed.table keeps.place.profile
    have shorter := remaining_visit player step rank visit next inside run
    obtain ⟨after, later, rest⟩ := visit_from_succeeds player step (rank + 1) n next keeps.path keeps.ranking
      (table ▸ known)
    refine ⟨after, ?_, keeps_trans visit next after n keeps rest⟩
    rw [visitFrom, dif_pos inside]
    split
    · rename_i fault failed
      cases run.symm.trans failed
    · rename_i other done
      cases run.symm.trans done
      exact later
  · exact ⟨visit, by rw [visitFrom, dif_neg inside], keeps_refl visit n valid ranked⟩
termination_by remaining visit.ranking rank
decreasing_by exact shorter

theorem repair_succeeds (path : Path α) (valid : path.Valid) (player step : Nat)
    (inside : player < path.rankings.length) :
    ∃ result, path.repair player step = .ok result ∧ result.1.Valid ∧ result.1.profile = path.profile ∧
      result.1.rankings.length = path.rankings.length := by
  have dimsInside : player < path.table.dims.length := valid.rankings.length_eq ▸ inside
  have known := path.table.strategy_count_inside player dimsInside
  have read := List.getElem?_eq_getElem inside
  obtain ⟨-, ranked⟩ := valid_ranking path valid player _ read
  obtain ⟨visit, run, keeps⟩ := visit_from_succeeds player step 0 _
    { path, ranking := path.rankings[player], events := [] } valid ranked known
  have table : visit.path.table = path.table := congrArg Mixed.table keeps.place.profile
  rw [repair, (entry_eq_ok _ _ _).mpr read, ok_bind, run, ok_bind]
  refine ⟨_, rfl, ⟨keeps.path.profile, keeps.path.words, ?_, keeps.path.pending⟩, keeps.place.profile, ?_⟩
  · exact forall₂_set _ _ keeps.path.rankings player _ _ (table ▸ known) keeps.ranking
  · rw [List.length_set, keeps.place.rankings]

theorem repair_all_succeeds (path : Path α) (valid : path.Valid) (step : Nat) (players : List Nat)
    (inside : ∀ player ∈ players, player < path.rankings.length) :
    ∃ result, path.repairAll step players = .ok result ∧ result.1.Valid ∧ result.1.profile = path.profile := by
  induction players generalizing path with
  | nil => exact ⟨_, rfl, valid, rfl⟩
  | cons player rest ih =>
      obtain ⟨⟨next, events⟩, run, nextValid, same, sizes⟩ :=
        repair_succeeds path valid player step (inside player List.mem_cons_self)
      obtain ⟨⟨last, later⟩, restRun, lastValid, lastSame⟩ := ih next nextValid fun other member =>
        sizes ▸ inside other (List.mem_cons_of_mem player member)
      simp only [repairAll, run, restRun, ok_bind]
      exact ⟨_, rfl, lastValid, lastSame.trans same⟩

-- What a visit of one class can do, in three cases.
theorem visit_class_cases (player step rank : Nat) (visit after : Visit α)
    (run : visitClass player step rank visit = .ok after) :
    after = visit ∨
    (∃ upper ranking, visit.ranking.merge rank = .ok ranking ∧ after =
      { path := { visit.path with
          orientation := -visit.path.orientation
          merges := visit.path.merges + 1
          pending := visit.path.pending <|> some (.merged player upper) }
        ranking
        events := visit.events ++ [.merged step player rank visit.path.lambda] }) ∨
    ∃ top ranking change leaders members, visit.ranking.split rank top = .ok ranking ∧ after =
      { path := { visit.path with
          splits := visit.path.splits + 1
          pending := visit.path.pending <|> some change }
        ranking
        events := visit.events ++ [.parted step player rank leaders members visit.path.lambda] } := by
  obtain ⟨isFlipped, -, run⟩ := bind_eq_ok.mp run
  split at run
  · obtain ⟨upper, -, run⟩ := bind_eq_ok.mp run
    obtain ⟨merged, mergeRun, run⟩ := bind_eq_ok.mp run
    cases run
    exact .inr (.inl ⟨upper, merged, mergeRun, rfl⟩)
  · obtain ⟨members, -, run⟩ := bind_eq_ok.mp run
    split at run
    · obtain ⟨_, -, run⟩ := bind_eq_ok.mp run
      obtain ⟨ranked, -, run⟩ := bind_eq_ok.mp run
      obtain ⟨point, -, run⟩ := bind_eq_ok.mp run
      cases point with
      | none =>
          cases run
          exact .inl rfl
      | some top =>
          obtain ⟨parted, splitRun, run⟩ := bind_eq_ok.mp run
          obtain ⟨newUpper, -, run⟩ := bind_eq_ok.mp run
          obtain ⟨newLower, -, run⟩ := bind_eq_ok.mp run
          obtain ⟨upperFirst, -, run⟩ := bind_eq_ok.mp run
          obtain ⟨lowerFirst, -, run⟩ := bind_eq_ok.mp run
          cases run
          exact .inr (.inr ⟨top, parted, _, _, _, splitRun, rfl⟩)
    · cases run
      exact .inl rfl

/-! A whole step. -/

-- The profile after a step is the one before, or lies from it along the tangent.
def Displaced (path : Path α) (after : Mixed α) : Prop :=
  after = path.profile ∨
    ∃ rows direction, path.jacobian = .ok rows ∧
      SameUpToSign (tangent path.orientation rows) direction ∧
      ∃ scale, after =
        { path.profile with
          probabilities := List.zipWith (· + ·) path.profile.probabilities
            ((direction.take path.table.dims.total).map fun t => t * scale) }

theorem displaced_table (path : Path α) (after : Mixed α) (displaced : Displaced path after) :
    after.table = path.table := by
  rcases displaced with same | ⟨_, _, _, _, _, moved⟩
  · exact congrArg Mixed.table same
  · rw [moved]
    rfl

theorem steps_length (direction : List α) (scale : α) (columns : Nat)
    (length : direction.length = columns + 1) :
    ((direction.take columns).map fun t => t * scale).length = columns := by
  rw [List.length_map, List.length_take, length]
  exact Nat.min_eq_left (Nat.le_succ _)

-- The direction of the next step, turned as the pending change asks.
theorem turn_succeeds (path : Path α) (valid : path.Valid) :
    ∃ rows oriented, path.jacobian = .ok rows ∧ path.orient (tangent path.orientation rows) = .ok oriented ∧
      oriented.path.Valid ∧ SamePlace path oriented.path ∧
      SameUpToSign (tangent path.orientation rows) oriented.direction ∧
      oriented.direction.length = oriented.path.table.dims.total + 1 := by
  obtain ⟨rows, built, height, -, -⟩ := jacobian_succeeds path valid
  have length : (tangent path.orientation rows).length = path.table.dims.total + 1 := by
    rw [tangent_length, height]
  obtain ⟨oriented, settled, place, pending, sign⟩ := orient_succeeds path valid _ length
  have table : oriented.path.table = path.table := congrArg Mixed.table place.profile
  have orientedValid := same_place_valid path oriented.path valid place fun change waiting => by
    rw [pending] at waiting
    cases waiting
  refine ⟨rows, oriented, built, settled, orientedValid, place, sign, ?_⟩
  rcases sign with same | negated
  · rw [same, length, table]
  · rw [negated, List.length_map, length, table]

theorem advance_succeeds (path : Path α) (valid : path.Valid) (step : Nat) (config : Config α) :
    ∃ attempt, path.advance step config = .ok attempt ∧ attempt.path.Valid ∧
      Displaced path attempt.path.profile := by
  obtain ⟨rows, ⟨oriented, direction, turned⟩, built, settled, orientedValid, place, sign, length⟩ :=
    turn_succeeds path valid
  have table : oriented.table = path.table := congrArg Mixed.table place.profile
  simp only [advance, built, settled, ok_bind]
  split
  · obtain ⟨rate, -, moved⟩ :=
      move_succeeds oriented orientedValid direction config.stepSize (Path.length direction) length
    have movedValid := move_valid oriented orientedValid _
      (oriented.lambda + rate * (config.stepSize / Path.length direction))
      (steps_length direction (config.stepSize / Path.length direction) _ length)
    have displaced : Displaced path
        { oriented.profile with
          probabilities := List.zipWith (· + ·) oriented.profile.probabilities
            ((direction.take oriented.table.dims.total).map fun t =>
              t * (config.stepSize / Path.length direction)) } := by
      refine Or.inr ⟨rows, direction, built, sign, config.stepSize / Path.length direction, ?_⟩
      rw [table, place.profile]
    rw [moved, ok_bind]
    split
    · exact ⟨_, rfl, movedValid, displaced⟩
    · obtain ⟨⟨last, repairs⟩, run, lastValid, same⟩ := repair_all_succeeds _ movedValid step _
        fun player listed => List.mem_range.mp listed
      rw [run, ok_bind]
      exact ⟨_, rfl, lastValid, same ▸ displaced⟩
  · exact ⟨_, rfl, orientedValid, Or.inl place.profile⟩

end NormalForm.Path
