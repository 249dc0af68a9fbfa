import NormalForm.Path.Step

/-!
Repair of the rankings after a step: neighbouring classes whose order has flipped are merged, and a
class whose leading members have gathered the weight of their ranks is parted. A player's classes are
visited once, from the best down.
-/

set_option autoImplicit false

namespace NormalForm.Path

variable {α : Type} [Scalar α]

-- The shortest proper leading group whose mass reaches the weight of the ranks from `rank` on.
def leadersFrom (lambda weights : α) (rank : Nat) (target mass : α) (taken : List Nat) :
    List (α × Nat) → Option (List Nat)
  | (probability, strategy) :: next :: rest =>
      let target := target + Arithmetic.power lambda rank / weights
      let mass := mass + probability
      let taken := taken ++ [strategy]
      if Arithmetic.le target mass then some taken
      else leadersFrom lambda weights (rank + 1) target mass taken (next :: rest)
  | _ => none

-- The members with their probabilities, most probable first, equal ones by number.
def byProbability (path : Path α) (player : Nat) (members : List Nat) :
    Except Fault (List (α × Nat)) := do
  let weighed ← members.mapM fun strategy => do
    let probability ← path.profile.probability player strategy
    .ok (probability, strategy)
  .ok (weighed.mergeSort Ranking.ranksBefore)

-- The leading group of a class, taking the ranks from `ranked` on, that has earned ranks of its
-- own. A proper group has at most one member fewer than the class, a number that an empty class lacks.
def splitPoint? (path : Path α) (player : Nat) (members : List Nat) (ranked : Nat) :
    Except Fault (Option (List Nat)) := do
  let sorted ← path.byProbability player members
  if sorted.isEmpty then .error .overflow
  else
    let weights := rankWeights path.lambda (path.table.strategyCount player)
    .ok (leadersFrom path.lambda weights ranked Arithmetic.zero Arithmetic.zero [] sorted)

-- A visit of the classes of one player: the path with its counters, orientation and pending change,
-- the ranking so far, and what has happened.
structure Visit (α : Type) where
  path : Path α
  ranking : Ranking
  events : List (Event α)

-- Whether the class below earns at least as much.
def flipped (path : Path α) (player : Nat) (ranking : Ranking) (rank : Nat) : Except Fault Bool := do
  if rank + 1 < ranking.size then
    let upper ← ranking.members rank
    let lower ← ranking.members (rank + 1)
    let upperValue ← path.profile.strategyValue player (← Ranking.representative upper)
    let lowerValue ← path.profile.strategyValue player (← Ranking.representative lower)
    .ok (Arithmetic.le upperValue lowerValue)
  else .ok false

-- Merges the class with the one below; the walk turns around.
def mergeClass (player step rank : Nat) (visit : Visit α) : Except Fault (Visit α) := do
  let upper ← visit.ranking.members rank
  let ranking ← visit.ranking.merge rank
  let path := visit.path
  .ok
    { path := { path with
        orientation := -path.orientation
        merges := path.merges + 1
        pending := path.pending <|> some (.merged player upper) }
      ranking
      events := visit.events ++ [.merged step player rank path.lambda] }

-- Parts the class if its leaders have earned ranks of their own.
def splitClass (player step rank : Nat) (visit : Visit α) : Except Fault (Visit α) := do
  let members ← visit.ranking.members rank
  let ranked ← visit.ranking.rankOffset rank
  match ← visit.path.splitPoint? player members ranked with
  | none => .ok visit
  | some top => do
      let ranking ← visit.ranking.split rank top
      let path := visit.path
      let upper ← ranking.members rank
      let lower ← ranking.members (rank + 1)
      let change := Restructure.parted player (← Ranking.representative upper)
        (← Ranking.representative lower)
      .ok
        { path := { path with
            splits := path.splits + 1
            pending := path.pending <|> some change }
          ranking
          events := visit.events ++
            [.parted step player rank top.length (top.length + lower.length) path.lambda] }

def visitClass (player step rank : Nat) (visit : Visit α) : Except Fault (Visit α) := do
  if ← visit.path.flipped player visit.ranking rank then mergeClass player step rank visit
  else
    let members ← visit.ranking.members rank
    if 1 < members.length then splitClass player step rank visit else .ok visit

-- What the classes from `rank` on still have to offer: a place per class and one per member.
def remaining (ranking : Ranking) (rank : Nat) : Nat :=
  (ranking.classes.drop rank).length + (ranking.classes.drop rank).flatten.length

theorem drop_after_take {β : Type} (items : List β) (rank : Nat) (first : β) (rest tail : List β)
    (dropped : items.drop rank = first :: rest) (new : β) :
    (items.take rank ++ new :: tail).drop (rank + 1) = tail := by
  have inside : rank < items.length := by
    have positive : 0 < (items.drop rank).length := by simp [dropped]
    rw [List.length_drop] at positive
    omega
  have size : (items.take rank ++ [new]).length = rank + 1 := by
    rw [List.length_append, List.length_take, List.length_singleton]
    omega
  rw [List.append_cons]
  exact List.drop_left' size

theorem remaining_next (ranking : Ranking) (rank : Nat) (inside : rank < ranking.size) :
    remaining ranking (rank + 1) < remaining ranking rank := by
  rw [remaining, remaining, List.drop_eq_getElem_cons inside, List.flatten_cons, List.length_append,
    List.length_cons]
  omega

theorem remaining_merge (ranking merged : Ranking) (rank : Nat)
    (run : ranking.merge rank = .ok merged) :
    remaining merged (rank + 1) < remaining ranking rank := by
  rw [Ranking.merge] at run
  split at run
  · cases run
  · split at run
    · rename_i upper lower rest dropped
      cases run
      rw [remaining, remaining, drop_after_take _ _ _ _ _ dropped, dropped]
      simp only [List.length_cons, List.flatten_cons, List.length_append]
      omega
    · cases run

theorem remaining_split (ranking parted : Ranking) (rank : Nat) (top : List Nat)
    (run : ranking.split rank top = .ok parted) :
    remaining parted (rank + 1) < remaining ranking rank := by
  rw [Ranking.split] at run
  split at run
  · rename_i members rest dropped
    split at run
    · cases run
    · rename_i proper
      split at run
      · rename_i within
        cases run
        rw [remaining, remaining, drop_after_take _ _ _ _ _ dropped, dropped]
        simp only [List.length_cons, List.flatten_cons, List.length_append]
        obtain ⟨member, here⟩ := List.exists_mem_of_ne_nil top (fun empty => proper (Or.inl empty))
        have inClass := List.all_eq_true.mp within member here
        have smaller := List.length_filter_lt_length_iff_exists
          (p := fun strategy => !top.contains strategy)
          |>.mpr ⟨member, by simpa using inClass, by simp [here]⟩
        omega
      · cases run
  · cases run

theorem remaining_visit (player step rank : Nat) (visit after : Visit α)
    (inside : rank < visit.ranking.size)
    (run : visitClass player step rank visit = .ok after) :
    remaining after.ranking (rank + 1) < remaining visit.ranking rank := by
  obtain ⟨isFlipped, -, run⟩ := bind_eq_ok.mp run
  split at run
  · obtain ⟨upper, -, run⟩ := bind_eq_ok.mp run
    obtain ⟨merged, mergeRun, run⟩ := bind_eq_ok.mp run
    cases run
    exact remaining_merge _ _ _ mergeRun
  · obtain ⟨members, -, run⟩ := bind_eq_ok.mp run
    split at run
    · obtain ⟨splitMembers, -, run⟩ := bind_eq_ok.mp run
      obtain ⟨ranked, -, run⟩ := bind_eq_ok.mp run
      obtain ⟨point, -, run⟩ := bind_eq_ok.mp run
      cases point with
      | none =>
          cases run
          exact remaining_next _ _ inside
      | some top =>
          obtain ⟨parted, splitRun, run⟩ := bind_eq_ok.mp run
          obtain ⟨newUpper, -, run⟩ := bind_eq_ok.mp run
          obtain ⟨newLower, -, run⟩ := bind_eq_ok.mp run
          obtain ⟨upperFirst, -, run⟩ := bind_eq_ok.mp run
          obtain ⟨lowerFirst, -, run⟩ := bind_eq_ok.mp run
          cases run
          exact remaining_split _ _ _ _ splitRun
    · cases run
      exact remaining_next _ _ inside

def visitFrom (player step rank : Nat) (visit : Visit α) : Except Fault (Visit α) :=
  if _inside : rank < visit.ranking.size then
    match _done : visitClass player step rank visit with
    | .error fault => .error fault
    | .ok after => visitFrom player step (rank + 1) after
  else .ok visit
termination_by remaining visit.ranking rank
decreasing_by exact remaining_visit player step rank visit after _inside _done

def repair (path : Path α) (player step : Nat) : Except Fault (Path α × List (Event α)) := do
  let ranking ← entry path.rankings player
  let visit ← visitFrom player step 0 { path, ranking, events := [] }
  .ok ({ visit.path with rankings := visit.path.rankings.set player visit.ranking }, visit.events)

def repairAll (path : Path α) (step : Nat) : List Nat → Except Fault (Path α × List (Event α))
  | [] => .ok (path, [])
  | player :: rest => do
      let (path, events) ← path.repair player step
      let (path, later) ← path.repairAll step rest
      .ok (path, events ++ later)

structure Attempt (α : Type) where
  path : Path α
  events : List (Event α)
  failure : Option (SolveError α)

def advance (path : Path α) (step : Nat) (config : Config α) : Except Fault (Attempt α) := do
  let rows ← path.jacobian
  let ⟨path, direction, turned⟩ ← path.orient (tangent path.orientation rows)
  let events := (turned.map (Event.reversed step)).toList
  let size := length direction
  if hasLength size then
    let path ← path.move direction config.stepSize size
    match path.infeasible? step config.feasibilityTolerance with
    | some failure => .ok ⟨path, events ++ [.failed failure], some failure⟩
    | none => do
        let (path, repairs) ← path.repairAll step (List.range path.rankings.length)
        .ok ⟨path, events ++ repairs, none⟩
  else
    let failure := .degenerate step path.lambda
    .ok ⟨path, events ++ [.failed failure], some failure⟩

end NormalForm.Path
