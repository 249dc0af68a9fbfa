import Mathlib.Algebra.BigOperators.Group.List.Basic
import NormalForm.Proofs.Path.Order
import NormalForm.Proofs.Path.Start

/-!
The ledger of a path. At the start every strategy is a class of its own; a merge takes one class away
and a split adds one, so that the classes of all players and the two counters balance against the
number of strategies. As there are never more classes than strategies, splits stay behind merges at
every event of the log.
-/

set_option autoImplicit false

namespace NormalForm

variable {α : Type}

namespace Ranking

def classCount (rankings : List Ranking) : Nat := Dimensions.total (rankings.map size)

@[simp] theorem class_count_cons (first : Ranking) (rest : List Ranking) :
    classCount (first :: rest) = first.size + classCount rest := rfl

theorem class_count_set (rankings : List Ranking) (player : Nat) (old new : Ranking)
    (found : rankings[player]? = some old) :
    classCount (rankings.set player new) + old.size = classCount rankings + new.size := by
  induction rankings generalizing player with
  | nil => cases found
  | cons first rest ih =>
      cases player with
      | zero =>
          cases found
          rw [List.set_cons_zero, class_count_cons, class_count_cons]
          omega
      | succ player =>
          have later := ih player found
          rw [List.set_cons_succ, class_count_cons, class_count_cons]
          omega

theorem class_count_le (rankings : List Ranking) (dims : Dimensions) (valid : List.Forall₂ Valid rankings dims) :
    classCount rankings ≤ dims.total := by
  induction valid with
  | nil => exact Nat.le_refl 0
  | @cons ranking n rest dims here _ ih => exact Nat.add_le_add (ranking.valid_size_le n here) ih

-- Where there are as many classes as strategies, each class has one member.
theorem class_count_full (rankings : List Ranking) (dims : Dimensions) (valid : List.Forall₂ Valid rankings dims)
    (full : dims.total ≤ classCount rankings) :
    ∀ ranking ∈ rankings, ∀ members ∈ ranking.classes, members.length = 1 := by
  induction valid with
  | nil => exact fun ranking listed => absurd listed List.not_mem_nil
  | @cons ranking n rest dims here others ih =>
      have size : ranking.classes.length ≤ n := ranking.valid_size_le n here
      have members : ranking.classes.flatten.length = n := ranking.valid_count n here
      have count := class_count_le rest dims others
      have whole : n + Dimensions.total dims ≤ ranking.classes.length + classCount rest := full
      have each := lone_members ranking.classes here.nonempty (by omega)
      exact List.forall_mem_cons.mpr ⟨each, ih (by omega)⟩

-- A player with strategies has a class.
theorem valid_size_pos (ranking : Ranking) (n : Nat) (valid : ranking.Valid n) (some : 0 < n) : 0 < ranking.size := by
  have placed := (valid.covers 0).mpr some
  obtain ⟨members, listed, -⟩ := List.mem_flatten.mp placed
  exact List.length_pos_of_mem listed

theorem class_count_ge (rankings : List Ranking) (dims : Dimensions) (valid : List.Forall₂ Valid rankings dims)
    (strategies : ∀ d ∈ dims, 0 < d) : dims.length ≤ classCount rankings := by
  induction valid with
  | nil => exact Nat.le_refl 0
  | @cons ranking n rest dims here _ ih =>
      have positive := ranking.valid_size_pos n here (strategies n List.mem_cons_self)
      have later := ih fun d member => strategies d (List.mem_cons_of_mem n member)
      rw [class_count_cons, List.length_cons]
      omega

theorem merge_size (ranking merged : Ranking) (rank : Nat) (run : ranking.merge rank = .ok merged) :
    merged.size + 1 = ranking.size := by
  have whole := congrArg List.length (List.take_append_drop rank ranking.classes)
  obtain ⟨upper, lower, rest, dropped, classes⟩ := merge_cases ranking merged rank run
  simp only [dropped, classes, size, List.length_append, List.length_cons] at whole ⊢
  omega

theorem split_size (ranking parted : Ranking) (rank : Nat) (top : List Nat)
    (run : ranking.split rank top = .ok parted) : parted.size = ranking.size + 1 := by
  have whole := congrArg List.length (List.take_append_drop rank ranking.classes)
  obtain ⟨members, rest, dropped, -, -, -, classes⟩ := split_cases ranking parted rank top run
  simp only [dropped, classes, size, List.length_append, List.length_cons] at whole ⊢
  omega

-- Every strategy begins as a class of its own.
theorem by_payoff_size [Arithmetic α] (values : List α) (tolerance : α) (ranking : Ranking)
    (run : byPayoff values tolerance = .ok (.ok ranking)) : ranking.size = values.length := by
  rw [byPayoff] at run
  split at run
  · cases run
  · obtain ⟨first, built, run⟩ := bind_eq_ok.mp run
    cases run
    obtain ⟨_, -, same⟩ := bind_eq_ok.mp built
    cases same
    rw [size, List.length_map, List.length_map, descending, List.length_mergeSort, List.length_zipIdx]

end Ranking

namespace Event

def isMerge : Event α → Bool
  | .merged .. => true
  | _ => false

def isSplit : Event α → Bool
  | .parted .. => true
  | _ => false

end Event

-- Classes and counters against the log; `total` is the number of strategies of all players.
structure Ledger (total : Nat) (log : List (Event α)) (rankings : List Ranking) (merges splits : Nat) : Prop where
  classes : Ranking.classCount rankings + merges = total + splits
  merges : log.countP Event.isMerge = merges
  splits : log.countP Event.isSplit = splits
  leads : ∀ before, before <+: log → before.countP Event.isSplit ≤ before.countP Event.isMerge

namespace Ledger

variable {total merges splits : Nat} {log : List (Event α)} {rankings after : List Ranking}

theorem empty (classes : Ranking.classCount rankings = total) : Ledger total ([] : List (Event α)) rankings 0 0 := by
  refine ⟨by omega, rfl, rfl, ?_⟩
  rintro before front
  rw [List.prefix_nil.mp front]
  exact Nat.le_refl 0

theorem enter (ledger : Ledger total log rankings merges splits) (event : Event α)
    (classes : Ranking.classCount after + (merges + [event].countP Event.isMerge) =
      total + (splits + [event].countP Event.isSplit))
    (behind : splits + [event].countP Event.isSplit ≤ merges + [event].countP Event.isMerge) :
    Ledger total (log ++ [event]) after (merges + [event].countP Event.isMerge)
      (splits + [event].countP Event.isSplit) := by
  refine ⟨classes, by rw [List.countP_append, ledger.merges], by rw [List.countP_append, ledger.splits], ?_⟩
  intro before front
  rcases List.prefix_concat_iff.mp front with rfl | earlier
  · rwa [List.countP_append, List.countP_append, ledger.merges, ledger.splits]
  · exact ledger.leads before earlier

theorem behind (ledger : Ledger total log rankings merges splits) : splits ≤ merges := by
  have whole := ledger.leads log (List.prefix_refl log)
  rwa [ledger.merges, ledger.splits] at whole

theorem note (ledger : Ledger total log rankings merges splits) (event : Event α)
    (other : event.isMerge = false ∧ event.isSplit = false) :
    Ledger total (log ++ [event]) rankings merges splits := by
  have noMerge : [event].countP Event.isMerge = 0 := by simp [other.1]
  have noSplit : [event].countP Event.isSplit = 0 := by simp [other.2]
  have entered : Ledger total (log ++ [event]) rankings (merges + [event].countP Event.isMerge)
      (splits + [event].countP Event.isSplit) := by
    apply ledger.enter
    · rw [noMerge, noSplit]
      exact ledger.classes
    · rw [noMerge, noSplit]
      exact ledger.behind
  rwa [noMerge, noSplit] at entered

theorem merge (ledger : Ledger total log rankings merges splits)
    (fewer : Ranking.classCount after + 1 = Ranking.classCount rankings) (step player rank : Nat) (lambda : α) :
    Ledger total (log ++ [.merged step player rank lambda]) after (merges + 1) splits := by
  have classes := ledger.classes
  have balanced : Ranking.classCount after + (merges + 1) = total + splits := by omega
  exact ledger.enter (.merged step player rank lambda) balanced (Nat.le_succ_of_le ledger.behind)

-- The split leaves no more classes than strategies, so that a merge must have come before it.
theorem split (ledger : Ledger total log rankings merges splits)
    (more : Ranking.classCount after = Ranking.classCount rankings + 1) (bound : Ranking.classCount after ≤ total)
    (step player rank leaders members : Nat) (lambda : α) :
    Ledger total (log ++ [.parted step player rank leaders members lambda]) after merges (splits + 1) := by
  have classes := ledger.classes
  have balanced : Ranking.classCount after + merges = total + (splits + 1) := by omega
  have behind : splits + 1 ≤ merges := by omega
  exact ledger.enter (.parted step player rank leaders members lambda) balanced behind

end Ledger

namespace Path

def Keeps (path : Path α) (log : List (Event α)) : Prop :=
  Ledger path.table.dims.total log path.rankings path.merges path.splits

-- The ledger of a visit counts the ranking so far in the place of the player's.
def Visit.KeepsLedger (visit : Visit α) (player : Nat) (log : List (Event α)) : Prop :=
  Ledger visit.path.table.dims.total (log ++ visit.events) (visit.path.rankings.set player visit.ranking)
    visit.path.merges visit.path.splits

variable [Scalar α]

-- What a visit of one class can do to the number of classes, the counters and the events.
inductive Records (before after : Visit α) : Prop where
  | kept (same : after = before)
  | merged (step player rank : Nat) (lambda : α) (size : after.ranking.size + 1 = before.ranking.size)
      (merges : after.path.merges = before.path.merges + 1) (splits : after.path.splits = before.path.splits)
      (events : after.events = before.events ++ [.merged step player rank lambda])
  | parted (step player rank leaders members : Nat) (lambda : α)
      (size : after.ranking.size = before.ranking.size + 1) (merges : after.path.merges = before.path.merges)
      (splits : after.path.splits = before.path.splits + 1)
      (events : after.events = before.events ++ [.parted step player rank leaders members lambda])

theorem visit_class_records (player step rank : Nat) (visit after : Visit α)
    (run : visitClass player step rank visit = .ok after) : Records visit after := by
  rcases visit_class_cases player step rank visit after run with
    same | ⟨upper, ranking, merged, rfl⟩ | ⟨top, ranking, change, leaders, members, parted, rfl⟩
  · exact .kept same
  · exact .merged step player rank visit.path.lambda (Ranking.merge_size _ _ _ merged) rfl rfl rfl
  · exact .parted step player rank leaders members visit.path.lambda (Ranking.split_size _ _ _ _ parted) rfl rfl rfl

theorem visit_class_ledger (player step rank n : Nat) (log : List (Event α)) (visit after : Visit α)
    (inside : rank < visit.ranking.size) (before : visit.Fits player n ∧ visit.KeepsLedger player log)
    (run : visitClass player step rank visit = .ok after) : after.Fits player n ∧ after.KeepsLedger player log := by
  obtain ⟨fits, ledger⟩ := before
  obtain ⟨afterFits, place⟩ := visit_class_fits player step rank n visit after fits inside run
  refine ⟨afterFits, ?_⟩
  have table : after.path.table = visit.path.table := congrArg Mixed.table place.profile
  have placed : player < visit.path.rankings.length := by
    rw [fits.valid.rankings.length_eq]
    exact (List.getElem?_eq_some_iff.mp fits.known).1
  have exchange : Ranking.classCount (visit.path.rankings.set player after.ranking) + visit.ranking.size =
      Ranking.classCount (visit.path.rankings.set player visit.ranking) + after.ranking.size := by
    have found := List.getElem?_set_self (a := visit.ranking) placed
    have counted := Ranking.class_count_set _ player visit.ranking after.ranking found
    rwa [List.set_set] at counted
  rw [Visit.KeepsLedger] at ledger ⊢
  rw [table, place.rankings]
  cases visit_class_records player step rank visit after run with
  | kept same => rwa [same]
  | merged step player rank lambda size merges splits events =>
      rw [merges, splits, events, ← List.append_assoc]
      exact ledger.merge (by omega) step player rank lambda
  | parted step player rank leaders members lambda size merges splits events =>
      rw [merges, splits, events, ← List.append_assoc]
      have bound := Ranking.class_count_le _ _
        (forall₂_set _ _ fits.valid.rankings _ after.ranking _ fits.known afterFits.ranked)
      exact ledger.split (by omega) bound step player rank leaders members lambda

theorem repair_ledger (path : Path α) (valid : path.Valid) (player step : Nat) (log : List (Event α))
    (ledger : path.Keeps log) (result : Path α × List (Event α)) (run : path.repair player step = .ok result) :
    result.1.Keeps (log ++ result.2) := by
  obtain ⟨ranking, read, run⟩ := bind_eq_ok.mp run
  have found := (entry_eq_ok _ _ _).mp read
  obtain ⟨inside, ranked⟩ := valid_ranking path valid player ranking found
  obtain ⟨visit, visited, run⟩ := bind_eq_ok.mp run
  cases run
  have first : Visit.KeepsLedger { path, ranking, events := [] } player log := by
    obtain ⟨placed, same⟩ := List.getElem?_eq_some_iff.mp found
    have unchanged : path.rankings.set player ranking = path.rankings := by
      rw [← same]
      exact List.set_getElem_self placed
    rw [Visit.KeepsLedger, List.append_nil, unchanged]
    exact ledger
  have fits : Visit.Fits { path, ranking, events := [] } player (path.table.strategyCount player) :=
    ⟨valid, ranked, path.table.strategy_count_inside player inside⟩
  obtain ⟨-, -, -, ledger⟩ := visit_from_holds player step _
    (fun rank now next => visit_class_ledger player step rank _ log now next) 0 _ visit ⟨fits, first⟩ visited
  exact ledger

theorem repair_all_ledger (path : Path α) (valid : path.Valid) (step : Nat) (players : List Nat)
    (inside : ∀ player ∈ players, player < path.rankings.length) (log : List (Event α)) (ledger : path.Keeps log)
    (result : Path α × List (Event α)) (run : path.repairAll step players = .ok result) :
    result.1.Keeps (log ++ result.2) := by
  induction players generalizing path log result with
  | nil =>
      cases run
      rw [List.append_nil]
      exact ledger
  | cons player rest ih =>
      obtain ⟨⟨next, events⟩, repaired, run⟩ := bind_eq_ok.mp run
      obtain ⟨⟨last, later⟩, restRun, run⟩ := bind_eq_ok.mp run
      cases run
      obtain ⟨same, sameRun, nextValid, -, sizes⟩ :=
        repair_succeeds path valid player step (inside player List.mem_cons_self)
      cases repaired.symm.trans sameRun
      have kept := repair_ledger path valid player step log ledger _ repaired
      have others : ∀ other ∈ rest, other < next.rankings.length :=
        fun other listed => sizes ▸ inside other (List.mem_cons_of_mem player listed)
      have further := ih next nextValid others (log ++ events) kept _ restRun
      rwa [List.append_assoc] at further

/-! A whole step. -/

theorem orient_ledger (path : Path α) (direction : List α) (oriented : Oriented α)
    (run : path.orient direction = .ok oriented) (step : Nat) (log : List (Event α)) (ledger : path.Keeps log) :
    oriented.path.Keeps (log ++ (oriented.turned.map (Event.reversed step)).toList) := by
  rw [orient] at run
  split at run
  · cases run
    rw [Option.map_none, Option.toList_none, List.append_nil]
    exact ledger
  · rename_i change _
    obtain ⟨rate, -, run⟩ := bind_eq_ok.mp run
    dsimp only at run
    generalize Arithmetic.lt _ (Arithmetic.zero : α) = backwards at run
    cases backwards with
    | true =>
        cases run
        exact ledger.note (.reversed step change) ⟨rfl, rfl⟩
    | false =>
        cases run
        rw [Option.map_none, Option.toList_none, List.append_nil]
        exact ledger

-- Of a step that fails the log ends with the failure; one that goes ahead ends with the repairs.
theorem advance_ledger (path : Path α) (valid : path.Valid) (step : Nat) (config : Config α) (log : List (Event α))
    (ledger : path.Keeps log) (attempt : Attempt α) (advanced : path.advance step config = .ok attempt) :
    attempt.path.Keeps (log ++ attempt.events) := by
  obtain ⟨rows, ⟨oriented, direction, turned⟩, built, settled, orientedValid, -, -, length⟩ :=
    turn_succeeds path valid
  have turnedLedger := orient_ledger path _ _ settled step log ledger
  simp only [advance, built, settled, ok_bind] at advanced
  split at advanced
  · obtain ⟨rate, -, moved⟩ :=
      move_succeeds oriented orientedValid direction config.stepSize (Path.length direction) length
    have movedValid := move_valid oriented orientedValid _
      (oriented.lambda + rate * (config.stepSize / Path.length direction))
      (steps_length direction (config.stepSize / Path.length direction) _ length)
    rw [moved, ok_bind] at advanced
    split at advanced
    · rename_i failure _
      cases advanced
      rw [← List.append_assoc]
      exact turnedLedger.note (.failed failure) ⟨rfl, rfl⟩
    · obtain ⟨result, repaired, same⟩ := bind_eq_ok.mp advanced
      cases same
      rw [← List.append_assoc]
      exact repair_all_ledger _ movedValid step _ (fun player listed => List.mem_range.mp listed) _ turnedLedger
        result repaired
  · cases advanced
    rw [← List.append_assoc]
    exact turnedLedger.note (.failed (.degenerate step oriented.lambda)) ⟨rfl, rfl⟩

/-! The start. -/

section Start

omit [Scalar α]
variable [Arithmetic α]

theorem initial_ranking_size (profile : Mixed α) (tolerance : α) (player : Nat) (ranking : Ranking)
    (run : initialRanking profile tolerance player = .ok (.ok ranking)) :
    ranking.size = profile.table.strategyCount player := by
  obtain ⟨values, read, run⟩ := bind_eq_ok.mp run
  obtain ⟨outcome, ranked, run⟩ := bind_eq_ok.mp run
  cases outcome with
  | error tie =>
      obtain ⟨value, -, run⟩ := bind_eq_ok.mp run
      cases run
  | ok first =>
      cases run
      rw [Ranking.by_payoff_size values tolerance ranking ranked, ← (map_m_each _ _ values read).length_eq,
        List.length_range]

theorem initial_rankings_sizes (profile : Mixed α) (tolerance : α) (players : List Nat) (rankings : List Ranking)
    (run : initialRankings profile tolerance players = .ok (.ok rankings)) :
    rankings.map Ranking.size = players.map profile.table.strategyCount := by
  induction players generalizing rankings with
  | nil =>
      cases run
      rfl
  | cons player rest ih =>
      obtain ⟨first, ranked, run⟩ := bind_eq_ok.mp run
      cases first with
      | error failure => cases run
      | ok ranking =>
          obtain ⟨later, others, run⟩ := bind_eq_ok.mp run
          cases later with
          | error failure => cases run
          | ok below =>
              cases run
              rw [List.map_cons, List.map_cons, ih below others,
                initial_ranking_size profile tolerance player ranking ranked]

theorem start_ledger (table : PayoffTable α) (config : Config α) (path : Path α)
    (begun : start table config = .ok (.ok path)) : path.Keeps [] := by
  obtain ⟨rankings, ranked, rfl⟩ := start_state table config path begun
  have sizes := initial_rankings_sizes _ _ _ rankings ranked
  have counts : (List.range table.dims.length).map (Mixed.uniform table).table.strategyCount = table.dims :=
    table.strategy_counts
  rw [counts] at sizes
  refine Ledger.empty ?_
  rw [Ranking.classCount, sizes]
  rfl

end Start

end Path

end NormalForm
