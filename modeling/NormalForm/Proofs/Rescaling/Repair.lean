import NormalForm.Proofs.Path.Order
import NormalForm.Proofs.Rescaling.Equations

/-!
What a step does once its direction is settled: the move, the test of feasibility and the repair of the
rankings. It compares payoffs with each other only, and does the same over a table in another unit.
-/

set_option autoImplicit false

namespace NormalForm.Path

variable {α : Type} [Scalar α]

-- The rest of a step after its direction is settled.
def proceed (path : Path α) (direction : List α) (events : List (Event α)) (step : Nat) (config : Config α) :
    Except Fault (Attempt α) := do
  let size := length direction
  if hasLength size then
    let path ← path.move direction config.stepSize size
    match path.infeasible? step config.feasibilityTolerance with
    | some failure => .ok ⟨path, events ++ [.failed failure], some failure⟩
    | none => do
        let (path, repairs) ← path.repairAll step (List.range path.rankings.length)
        .ok ⟨path, events ++ repairs, none⟩
  else
    let failure := .degenerate step path.lambda
    .ok ⟨path, events ++ [.failed failure], some failure⟩

theorem advance_proceeds (path : Path α) (step : Nat) (config : Config α) (rows : List (List α))
    (oriented : Oriented α) (built : path.jacobian = .ok rows)
    (settled : path.orient (tangent path.orientation rows) = .ok oriented) :
    path.advance step config = oriented.path.proceed oriented.direction
      (oriented.turned.map (Event.reversed step)).toList step config := by
  rw [advance, built, ok_bind, settled, ok_bind]
  rfl

/-! Visits move nothing, whatever the rankings. -/

theorem visit_class_place (player step rank : Nat) (visit after : Visit α)
    (run : visitClass player step rank visit = .ok after) : SamePlace visit.path after.path := by
  rcases visit_class_cases player step rank visit after run with
    rfl | ⟨upper, ranking, -, rfl⟩ | ⟨top, ranking, change, leaders, members, -, rfl⟩ <;> exact ⟨rfl, rfl, rfl⟩

theorem visit_from_eq (player step rank : Nat) (visit : Visit α) (inside : rank < visit.ranking.size) :
    visitFrom player step rank visit =
      visitClass player step rank visit >>= visitFrom player step (rank + 1) := by
  rw [visitFrom, dif_pos inside]
  split
  · rename_i fault failed
    rw [failed]
    rfl
  · rename_i after done
    rw [done, ok_bind]

theorem visit_from_place (player step rank : Nat) (visit after : Visit α)
    (run : visitFrom player step rank visit = .ok after) : SamePlace visit.path after.path := by
  have each (rank : Nat) (now next : Visit α) (_ : rank < now.ranking.size) (before : SamePlace visit.path now.path)
      (done : visitClass player step rank now = .ok next) : SamePlace visit.path next.path := by
    have here := visit_class_place player step rank now next done
    exact ⟨here.profile.trans before.profile, here.lambda.trans before.lambda, here.rankings.trans before.rankings⟩
  obtain ⟨-, -, place⟩ := visit_from_holds player step _ each rank visit after ⟨rfl, rfl, rfl⟩ run
  exact place

theorem repair_stays (path : Path α) (player step : Nat) (result : Path α × List (Event α))
    (run : path.repair player step = .ok result) :
    result.1.profile = path.profile ∧ result.1.lambda = path.lambda := by
  obtain ⟨ranking, -, run⟩ := bind_eq_ok.mp run
  obtain ⟨visit, visited, run⟩ := bind_eq_ok.mp run
  cases run
  have place := visit_from_place player step 0 _ visit visited
  exact ⟨place.profile, place.lambda⟩

/-! Repair over a table in another unit. -/

variable (f : α → α) (rescaling : Rescaling f) (other : PayoffTable α)

include rescaling

theorem flipped_over (path : Path α) (rescales : path.table.Rescales f other) (player : Nat) (ranking : Ranking)
    (rank : Nat) : (path.withTable other).flipped player ranking rank = path.flipped player ranking rank := by
  have value := path.profile.strategy_value_over f rescaling other rescales player
  have profile : (path.withTable other).profile = path.profile.withTable other := rfl
  rw [flipped, flipped, profile]
  split
  · apply bind_congr
    intro upper
    apply bind_congr
    intro lower
    apply bind_congr
    intro first
    rw [value]
    cases path.profile.strategyValue player first with
    | error fault => rfl
    | ok better =>
        cases Ranking.representative lower with
        | error fault => rfl
        | ok second =>
            simp only [ok_bind, Except.map, value]
            cases path.profile.strategyValue player second with
            | error fault => rfl
            | ok worse => exact congrArg Except.ok (rescaling.le better worse)
  · rfl

omit rescaling in
theorem split_point_over (path : Path α) (rescales : path.table.Rescales f other) (player : Nat)
    (members : List Nat) (ranked : Nat) :
    (path.withTable other).splitPoint? player members ranked = path.splitPoint? player members ranked := by
  obtain ⟨⟨⟨dims, cells, scale⟩, probabilities⟩, lambda, orientation, rankings, pending, merges, splits⟩ := path
  obtain ⟨dims, otherCells, otherScale⟩ := other
  obtain ⟨rfl, -⟩ := rescales
  rfl

omit rescaling in
theorem merge_class_over (player step rank : Nat) (visit : Visit α) :
    mergeClass player step rank (visit.withTable other) =
      (mergeClass player step rank visit).map fun after => after.withTable other := by
  have ranking : (visit.withTable other).ranking = visit.ranking := rfl
  rw [mergeClass, mergeClass, ranking, bind_map]
  refine bind_congr fun upper => ?_
  rw [bind_map]
  exact bind_congr fun merged => rfl

omit rescaling in
theorem split_class_over (player step rank : Nat) (visit : Visit α) (rescales : visit.path.table.Rescales f other) :
    splitClass player step rank (visit.withTable other) =
      (splitClass player step rank visit).map fun after => after.withTable other := by
  have ranking : (visit.withTable other).ranking = visit.ranking := rfl
  have path : (visit.withTable other).path = visit.path.withTable other := rfl
  rw [splitClass, splitClass, ranking, path, bind_map]
  refine bind_congr fun members => ?_
  rw [bind_map]
  refine bind_congr fun ranked => ?_
  rw [split_point_over f other visit.path rescales, bind_map]
  refine bind_congr fun point => ?_
  cases point with
  | none => rfl
  | some top =>
      simp only [bind_map]
      rfl

theorem visit_class_over (player step rank : Nat) (visit : Visit α) (rescales : visit.path.table.Rescales f other) :
    visitClass player step rank (visit.withTable other) =
      (visitClass player step rank visit).map fun after => after.withTable other := by
  have ranking : (visit.withTable other).ranking = visit.ranking := rfl
  have path : (visit.withTable other).path = visit.path.withTable other := rfl
  rw [visitClass, visitClass, ranking, path, flipped_over f rescaling other visit.path rescales, bind_map]
  refine bind_congr fun isFlipped => ?_
  cases isFlipped with
  | true => exact merge_class_over other player step rank visit
  | false =>
      rw [if_neg Bool.false_ne_true, if_neg Bool.false_ne_true, bind_map]
      refine bind_congr fun members => ?_
      split
      · exact split_class_over f other player step rank visit rescales
      · rfl

theorem visit_from_over (player step rank : Nat) (visit : Visit α) (rescales : visit.path.table.Rescales f other) :
    visitFrom player step rank (visit.withTable other) =
      (visitFrom player step rank visit).map fun after => after.withTable other := by
  by_cases inside : rank < visit.ranking.size
  · rw [visit_from_eq player step rank visit inside, visit_from_eq player step rank (visit.withTable other) inside,
      visit_class_over f rescaling other player step rank visit rescales]
    cases done : visitClass player step rank visit with
    | error fault => rfl
    | ok next =>
        have shorter := remaining_visit player step rank visit next inside done
        have table : next.path.table = visit.path.table :=
          congrArg Mixed.table (visit_class_place player step rank visit next done).profile
        exact visit_from_over player step (rank + 1) next (table ▸ rescales)
  · have outside : ¬ rank < (visit.withTable other).ranking.size := inside
    rw [visitFrom, visitFrom, dif_neg inside, dif_neg outside]
    rfl
termination_by remaining visit.ranking rank
decreasing_by exact shorter

theorem repair_over (path : Path α) (rescales : path.table.Rescales f other) (player step : Nat) :
    (path.withTable other).repair player step =
      (path.repair player step).map fun result => (result.1.withTable other, result.2) := by
  have rankings : (path.withTable other).rankings = path.rankings := rfl
  rw [repair, repair, rankings]
  cases entry path.rankings player with
  | error fault => rfl
  | ok ranking =>
      have visited := visit_from_over f rescaling other player step 0 { path, ranking, events := [] } rescales
      rw [Visit.withTable] at visited
      simp only [ok_bind, visited]
      cases visitFrom player step 0 { path, ranking, events := [] } with
      | error fault => rfl
      | ok visit => rfl

theorem repair_all_over (path : Path α) (rescales : path.table.Rescales f other) (step : Nat) (players : List Nat) :
    (path.withTable other).repairAll step players =
      (path.repairAll step players).map fun result => (result.1.withTable other, result.2) := by
  induction players generalizing path with
  | nil => rfl
  | cons player rest ih =>
      rw [repairAll, repairAll, repair_over f rescaling other path rescales]
      cases done : path.repair player step with
      | error fault => rfl
      | ok result =>
          have table : result.1.table = path.table :=
            congrArg Mixed.table (repair_stays path player step result done).1
          simp only [Except.map, ok_bind, ih result.1 (table ▸ rescales)]
          cases result.1.repairAll step rest with
          | error fault => rfl
          | ok last => rfl

omit rescaling in
theorem move_over (path : Path α) (direction : List α) (stepSize size : α) :
    (path.withTable other).move direction stepSize size =
      (path.move direction stepSize size).map fun moved => moved.withTable other := by
  have probabilities : (path.withTable other).profile.probabilities = path.profile.probabilities := rfl
  rw [move, move, Mixed.add, Mixed.add, probabilities]
  split
  · simp only [ok_bind]
    cases entry direction (direction.length - 1) with
    | error fault => rfl
    | ok rate => rfl
  · rfl

omit rescaling in
theorem move_table (path moved : Path α) (direction : List α) (stepSize size : α)
    (run : path.move direction stepSize size = .ok moved) : moved.table = path.table := by
  obtain ⟨profile, added, run⟩ := bind_eq_ok.mp run
  obtain ⟨rate, -, run⟩ := bind_eq_ok.mp run
  cases run
  rw [Mixed.add] at added
  split at added
  · cases added
    rfl
  · cases added

theorem proceed_over (path : Path α) (rescales : path.table.Rescales f other) (direction : List α)
    (events : List (Event α)) (step : Nat) (config : Config α) :
    (path.withTable other).proceed direction events step config =
      (path.proceed direction events step config).map fun attempt => attempt.withTable other := by
  rw [proceed, proceed]
  dsimp only
  split
  · rw [move_over other path]
    cases done : path.move direction config.stepSize (length direction) with
    | error fault => rfl
    | ok moved =>
        have feasible : (moved.withTable other).infeasible? step config.feasibilityTolerance =
            moved.infeasible? step config.feasibilityTolerance := rfl
        have rankings : (moved.withTable other).rankings = moved.rankings := rfl
        have table := move_table path moved direction _ _ done
        simp only [Except.map, ok_bind, feasible, rankings,
          repair_all_over f rescaling other moved (table ▸ rescales)]
        cases moved.infeasible? step config.feasibilityTolerance with
        | some failure => rfl
        | none =>
            cases moved.repairAll step (List.range moved.rankings.length) with
            | error fault => rfl
            | ok result => rfl
  · rfl

end NormalForm.Path
