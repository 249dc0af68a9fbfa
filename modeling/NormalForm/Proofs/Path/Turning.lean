import NormalForm.Proofs.Path.Ledger
import NormalForm.Proofs.Rescaling.Repair

/-!
The walk turns around once for every class that a repair merges, and the counter of merges and the log keep
count. A repair that counts neither a merge nor a split leaves all as it was.
-/

set_option autoImplicit false

namespace NormalForm.Path

variable {α : Type} [Scalar α]

structure Turns (before after : Path α) (events : List (Event α)) : Prop where
  merges : after.merges = before.merges + events.countP Event.isMerge
  orientation : after.orientation = (fun bearing => -bearing)^[events.countP Event.isMerge] before.orientation

theorem turns_refl (path : Path α) : Turns path path [] :=
  ⟨rfl, rfl⟩

theorem turns_trans (first second third : Path α) (events later : List (Event α)) (left : Turns first second events)
    (right : Turns second third later) : Turns first third (events ++ later) := by
  refine ⟨?_, ?_⟩
  · rw [right.merges, left.merges, List.countP_append, Nat.add_assoc]
  · rw [right.orientation, left.orientation, List.countP_append, Nat.add_comm, Function.iterate_add_apply]

theorem visit_class_turns (player step rank : Nat) (visit after : Visit α)
    (run : visitClass player step rank visit = .ok after) :
    ∃ events, after.events = visit.events ++ events ∧ Turns visit.path after.path events := by
  rcases visit_class_cases player step rank visit after run with
    rfl | ⟨upper, ranking, -, rfl⟩ | ⟨top, ranking, change, leaders, members, -, rfl⟩
  · exact ⟨[], (List.append_nil _).symm, turns_refl _⟩
  · exact ⟨_, rfl, rfl, rfl⟩
  · exact ⟨_, rfl, rfl, rfl⟩

theorem visit_from_turns (player step rank : Nat) (visit after : Visit α)
    (run : visitFrom player step rank visit = .ok after) :
    ∃ events, after.events = visit.events ++ events ∧ Turns visit.path after.path events := by
  have each (rank : Nat) (now next : Visit α) (_ : rank < now.ranking.size)
      (before : ∃ events, now.events = visit.events ++ events ∧ Turns visit.path now.path events)
      (done : visitClass player step rank now = .ok next) :
      ∃ events, next.events = visit.events ++ events ∧ Turns visit.path next.path events := by
    obtain ⟨events, entered, turns⟩ := before
    obtain ⟨later, added, further⟩ := visit_class_turns player step rank now next done
    exact ⟨events ++ later, by rw [added, entered, List.append_assoc], turns_trans _ _ _ _ _ turns further⟩
  obtain ⟨-, -, turns⟩ := visit_from_holds player step _ each rank visit after
    ⟨[], (List.append_nil _).symm, turns_refl _⟩ run
  exact turns

theorem repair_turns (path : Path α) (player step : Nat) (result : Path α × List (Event α))
    (run : path.repair player step = .ok result) : Turns path result.1 result.2 := by
  obtain ⟨ranking, -, run⟩ := bind_eq_ok.mp run
  obtain ⟨visit, visited, run⟩ := bind_eq_ok.mp run
  obtain ⟨events, entered, turns⟩ := visit_from_turns player step 0 _ visit visited
  cases run
  rw [List.nil_append] at entered
  exact entered ▸ ⟨turns.merges, turns.orientation⟩

theorem repair_all_turns (path : Path α) (step : Nat) (players : List Nat) (result : Path α × List (Event α))
    (run : path.repairAll step players = .ok result) : Turns path result.1 result.2 :=
  repair_all_follows step Turns turns_refl turns_trans
    (fun path player result => repair_turns path player step result) path players result run

-- The move leaves the orientation alone; the repairs turn it.
theorem proceed_turns (path : Path α) (direction : List α) (events : List (Event α)) (step : Nat) (config : Config α)
    (attempt : Attempt α) (run : path.proceed direction events step config = .ok attempt) :
    ∃ repairs, Turns path attempt.path repairs := by
  rw [proceed] at run
  split at run
  · obtain ⟨moved, moves, run⟩ := bind_eq_ok.mp run
    have kept : moved.merges = path.merges ∧ moved.orientation = path.orientation := by
      obtain ⟨profile, -, moves⟩ := bind_eq_ok.mp moves
      obtain ⟨rate, -, moves⟩ := bind_eq_ok.mp moves
      cases moves
      exact ⟨rfl, rfl⟩
    split at run
    · cases run
      exact ⟨[], kept.1, kept.2⟩
    · obtain ⟨⟨last, repairs⟩, repaired, run⟩ := bind_eq_ok.mp run
      cases run
      obtain ⟨merges, orientation⟩ := repair_all_turns moved step _ _ repaired
      exact ⟨repairs, kept.1 ▸ merges, kept.2 ▸ orientation⟩
  · cases run
    exact ⟨[], rfl, rfl⟩

/-! Repairs that count nothing. -/

-- The same, or more by some measure.
def Grows {β : Type} (measure : β → Nat) (before after : β) : Prop :=
  after = before ∨ measure before < measure after

theorem grows_trans {β : Type} (measure : β → Nat) (first second third : β) (left : Grows measure first second)
    (right : Grows measure second third) : Grows measure first third := by
  rcases left with rfl | grows
  · exact right
  · rcases right with rfl | further
    · exact .inr grows
    · exact .inr (Nat.lt_trans grows further)

def changes (path : Path α) : Nat := path.merges + path.splits

theorem visit_class_counts (player step rank : Nat) (visit after : Visit α)
    (run : visitClass player step rank visit = .ok after) : Grows (fun visit => visit.path.changes) visit after := by
  rcases visit_class_cases player step rank visit after run with
    same | ⟨upper, ranking, -, rfl⟩ | ⟨top, ranking, change, leaders, members, -, rfl⟩
  · exact .inl same
  · exact .inr (Nat.add_lt_add_right (Nat.lt_succ_self _) _)
  · exact .inr (Nat.lt_succ_self _)

theorem visit_from_counts (player step rank : Nat) (visit after : Visit α)
    (run : visitFrom player step rank visit = .ok after) : Grows (fun visit => visit.path.changes) visit after := by
  have each (rank : Nat) (now next : Visit α) (_ : rank < now.ranking.size)
      (before : Grows (fun visit => visit.path.changes) visit now)
      (done : visitClass player step rank now = .ok next) : Grows (fun visit => visit.path.changes) visit next :=
    grows_trans _ visit now next before (visit_class_counts player step rank now next done)
  obtain ⟨-, -, counts⟩ := visit_from_holds player step _ each rank visit after (.inl rfl) run
  exact counts

theorem repair_counts (path : Path α) (player step : Nat) (result : Path α × List (Event α))
    (run : path.repair player step = .ok result) : Grows changes path result.1 := by
  obtain ⟨ranking, read, run⟩ := bind_eq_ok.mp run
  obtain ⟨visit, visited, run⟩ := bind_eq_ok.mp run
  cases run
  rcases visit_from_counts player step 0 _ visit visited with rfl | grows
  · obtain ⟨inside, rfl⟩ := List.getElem?_eq_some_iff.mp ((entry_eq_ok _ _ _).mp read)
    refine .inl ?_
    dsimp only
    rw [List.set_getElem_self]
  · exact .inr grows

theorem repair_all_counts (path : Path α) (step : Nat) (players : List Nat) (result : Path α × List (Event α))
    (run : path.repairAll step players = .ok result) : Grows changes path result.1 :=
  repair_all_follows step (fun before after _ => Grows changes before after) (fun _ => .inl rfl)
    (fun first second third _ _ => grows_trans changes first second third)
    (fun path player result => repair_counts path player step result) path players result run

-- The walk and its direction are turned together, or neither is.
theorem orient_cases (path : Path α) (direction : List α) (oriented : Oriented α)
    (run : path.orient direction = .ok oriented) :
    (oriented.path = { path with pending := none } ∧ oriented.direction = direction) ∨
      (oriented.path = { path with pending := none, orientation := -path.orientation } ∧
        oriented.direction = direction.map (- ·)) := by
  cases pending : path.pending with
  | none =>
      rw [orient, pending] at run
      cases run
      exact .inl ⟨by rw [← pending], rfl⟩
  | some change =>
      simp only [orient, pending] at run
      obtain ⟨rate, -, run⟩ := bind_eq_ok.mp run
      generalize Arithmetic.lt _ (Arithmetic.zero : α) = backwards at run
      cases backwards with
      | true =>
          cases run
          exact .inr ⟨rfl, rfl⟩
      | false =>
          cases run
          exact .inl ⟨rfl, rfl⟩

theorem orient_counts (path : Path α) (direction : List α) (oriented : Oriented α)
    (run : path.orient direction = .ok oriented) :
    oriented.path.merges = path.merges ∧ oriented.path.changes = path.changes := by
  rcases orient_cases path direction oriented run with ⟨same, -⟩ | ⟨turned, -⟩
  · rw [same]
    exact ⟨rfl, rfl⟩
  · rw [turned]
    exact ⟨rfl, rfl⟩

theorem advance_merges (path : Path α) (step : Nat) (config : Config α) (attempt : Attempt α)
    (run : path.advance step config = .ok attempt) : path.merges ≤ attempt.path.merges := by
  obtain ⟨rows, built, later⟩ := bind_eq_ok.mp run
  obtain ⟨oriented, settled, -⟩ := bind_eq_ok.mp later
  obtain ⟨merges, -⟩ := orient_counts path _ oriented settled
  obtain ⟨repairs, turns⟩ := proceed_turns _ _ _ _ _ _
    ((advance_proceeds path step config rows oriented built settled).symm.trans run)
  rw [turns.merges, merges]
  exact Nat.le_add_right _ _

-- What a step does to the rankings, it counts.
theorem proceed_counts (path : Path α) (direction : List α) (events : List (Event α)) (step : Nat) (config : Config α)
    (attempt : Attempt α) (run : path.proceed direction events step config = .ok attempt) :
    (attempt.path.rankings = path.rankings ∧ attempt.path.pending = path.pending ∧
      attempt.path.orientation = path.orientation) ∨
      path.changes < attempt.path.changes := by
  rw [proceed] at run
  split at run
  · obtain ⟨moved, moves, run⟩ := bind_eq_ok.mp run
    obtain ⟨profile, -, moves⟩ := bind_eq_ok.mp moves
    obtain ⟨rate, -, moves⟩ := bind_eq_ok.mp moves
    cases moves
    split at run
    · cases run
      exact .inl ⟨rfl, rfl, rfl⟩
    · obtain ⟨⟨last, repairs⟩, repaired, run⟩ := bind_eq_ok.mp run
      cases run
      rcases repair_all_counts _ step _ _ repaired with rfl | grows
      · exact .inl ⟨rfl, rfl, rfl⟩
      · exact .inr grows
  · cases run
    exact .inl ⟨rfl, rfl, rfl⟩

end NormalForm.Path
