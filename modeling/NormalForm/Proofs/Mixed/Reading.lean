import NormalForm.Proofs.Mixed.Walk

/-!
Expected payoffs are read inside the tables: over a complete payoff table and a probability per
strategy, no expectation faults when the players and strategies it names exist.
-/

set_option autoImplicit false

namespace NormalForm

section Reading

variable {α : Type}

-- A cell for every strategy vector, and a payoff of every player in each row.
structure PayoffTable.Complete (table : PayoffTable α) : Prop where
  cells : table.cells.size = table.dims.count
  rows : ∀ payoffs, some payoffs ∈ table.cells → payoffs.length = table.dims.length

namespace PayoffTable

theorem strategy_count_known (table : PayoffTable α) (player d : Nat)
    (known : table.dims[player]? = some d) : table.strategyCount player = d := by
  rw [strategyCount, known, Option.getD_some]

theorem strategy_count_inside (table : PayoffTable α) (player : Nat) (inside : player < table.dims.length) :
    table.dims[player]? = some (table.strategyCount player) := by
  rw [strategyCount, List.getElem?_eq_getElem inside, Option.getD_some]

theorem strategy_count_at (table : PayoffTable α) (player : Nat) (inside : player < table.dims.length) :
    table.strategyCount player = table.dims[player] :=
  table.strategy_count_known player _ (List.getElem?_eq_getElem inside)

theorem strategy_known (table : PayoffTable α) (player strategy : Nat)
    (below : strategy < table.strategyCount player) :
    table.dims[player]? = some (table.strategyCount player) := by
  unfold strategyCount at below ⊢
  cases known : table.dims[player]? with
  | none => simp [known] at below
  | some d => rfl

theorem strategy_counts (table : PayoffTable α) :
    (List.range table.dims.length).map table.strategyCount = table.dims := by
  apply List.ext_getElem
  · simp
  · intro player _ inside
    simp [strategyCount, inside]

end PayoffTable

namespace Mixed

structure Complete (profile : Mixed α) : Prop where
  table : profile.table.Complete
  length : profile.probabilities.length = profile.table.dims.total

theorem offset_inside (profile : Mixed α) (player : Nat) (inside : player < profile.players) :
    profile.offset player = .ok (profile.table.dims.offset player) :=
  if_pos inside

theorem probability_succeeds (profile : Mixed α) (player strategy : Nat)
    (length : profile.probabilities.length = profile.table.dims.total)
    (below : strategy < profile.table.strategyCount player) :
    ∃ value, profile.probability player strategy = .ok value := by
  have known := profile.table.strategy_known player strategy below
  have place := Dimensions.offset_lt_total _ player strategy _ known below
  exact ⟨_, by rw [probability, if_pos below, entry_inside _ _ (length.symm ▸ place)]⟩

-- The induction runs over the players from `player` on.
theorem free_factors_succeed (profile : Mixed α) (player : Nat) (choices : List (Option Nat))
    (strategies : List Nat) (length : profile.probabilities.length = profile.table.dims.total)
    (valid : Dimensions.InRange (profile.table.dims.drop player) strategies) :
    ∃ factors, profile.freeFactors player choices strategies = .ok factors := by
  induction strategies generalizing player choices with
  | nil => exact ⟨[], by unfold freeFactors; cases choices with
      | nil => rfl
      | cons choice rest => cases choice <;> rfl⟩
  | cons strategy strategies ih =>
      obtain ⟨d, rest, below, later, dropped⟩ := List.forall₂_cons_left_iff.mp valid
      have known : profile.table.dims[player]? = some d := by
        have head : (profile.table.dims.drop player)[0]? = profile.table.dims[player + 0]? :=
          List.getElem?_drop
        rw [dropped] at head
        simpa using head.symm
      have tail : profile.table.dims.drop (player + 1) = rest := by
        rw [← List.tail_drop, dropped, List.tail_cons]
      cases choices with
      | nil => exact ⟨[], rfl⟩
      | cons choice choices =>
          obtain ⟨factors, run⟩ := ih (player + 1) choices (tail.symm ▸ later)
          cases choice with
          | some held => exact ⟨factors, run⟩
          | none =>
              obtain ⟨factor, here⟩ := probability_succeeds profile player strategy length
                ((profile.table.strategy_count_known player d known).symm ▸ below)
              exact ⟨factor :: factors, by rw [freeFactors, here, ok_bind, run, ok_bind]⟩

end Mixed

variable [Arithmetic α]

theorem PayoffTable.payoff_succeeds (table : PayoffTable α) (complete : table.Complete) (index player : Nat)
    (cell : index < table.dims.count) (inside : player < table.dims.length) :
    ∃ value, table.payoff index player = .ok value := by
  have found : index < table.cells.size := complete.cells.symm ▸ cell
  rw [payoff]
  rw [Array.getElem?_eq_getElem found]
  cases row : table.cells[index] with
  | none => exact ⟨Arithmetic.ofRat 0, rfl⟩
  | some payoffs =>
      have sizes := complete.rows payoffs (row ▸ Array.getElem_mem found)
      exact ⟨_, entry_inside payoffs player (sizes.symm ▸ inside)⟩

namespace Mixed

theorem term_succeeds (profile : Mixed α) (complete : profile.Complete) (player : Nat)
    (choices : List (Option Nat)) (strategies : List Nat) (inside : player < profile.players)
    (valid : profile.table.dims.InRange strategies) :
    ∃ value, profile.term player choices strategies = .ok value := by
  obtain ⟨factors, weighed⟩ := free_factors_succeed profile 0 choices strategies complete.length valid
  simp only [term, weight, weighed, ok_bind]
  split
  · exact ⟨Arithmetic.zero, rfl⟩
  · obtain ⟨value, paid⟩ := profile.table.payoff_succeeds complete.table _ player
      (Dimensions.index_lt_count _ strategies valid) inside
    exact ⟨_, by rw [paid, ok_bind]⟩

theorem conditional_succeeds (profile : Mixed α) (complete : profile.Complete) (player : Nat)
    (fixed : List (Nat × Nat)) (inside : player < profile.players)
    (known : ∀ pair ∈ fixed, pair.2 < profile.table.strategyCount pair.1) :
    ∃ value, profile.conditional player fixed = .ok value := by
  obtain ⟨choices, chosen, held⟩ := Dimensions.fix_held profile.table.dims fixed fun pair member =>
    ⟨_, profile.table.strategy_known pair.1 pair.2 (known pair member), known pair member⟩
  obtain ⟨terms, run, -⟩ := map_m_succeeds (profile.pureVectors choices)
    (profile.term player choices) (fun _ _ => True) fun strategies listed => by
      obtain ⟨value, here⟩ := term_succeeds profile complete player choices strategies inside
        (Dimensions.vectors_in_range _ choices held strategies listed)
      exact ⟨value, here, trivial⟩
  exact ⟨_, by rw [conditional_eq, chosen, ok_bind, expected, run, ok_bind]⟩

theorem strategy_value_succeeds (profile : Mixed α) (complete : profile.Complete)
    (player strategy : Nat) (below : strategy < profile.table.strategyCount player) :
    ∃ value, profile.strategyValue player strategy = .ok value := by
  have known := profile.table.strategy_known player strategy below
  have inside : player < profile.players := (List.getElem?_eq_some_iff.mp known).1
  exact conditional_succeeds profile complete player [(player, strategy)] inside (by simpa using below)

theorem derivative_succeeds (profile : Mixed α) (complete : profile.Complete)
    (player strategy other otherStrategy : Nat) (below : strategy < profile.table.strategyCount player)
    (otherBelow : otherStrategy < profile.table.strategyCount other) :
    ∃ value, profile.derivative player strategy other otherStrategy = .ok value := by
  rw [derivative]
  split
  · exact ⟨Arithmetic.zero, rfl⟩
  · have known := profile.table.strategy_known player strategy below
    have inside : player < profile.players := (List.getElem?_eq_some_iff.mp known).1
    exact conditional_succeeds profile complete player _ inside (by simp [below, otherBelow])

theorem regret_succeeds (profile : Mixed α) (complete : profile.Complete) (player : Nat)
    (inside : player < profile.players) :
    ∃ values, profile.regret player = .ok (Arithmetic.largest values) := by
  obtain ⟨current, paid⟩ := conditional_succeeds profile complete player [] inside (List.forall_mem_nil _)
  obtain ⟨values, valued, -⟩ := map_m_succeeds (List.range (profile.table.strategyCount player))
    (profile.strategyValue player) (fun _ _ => True) fun strategy listed => by
      obtain ⟨value, here⟩ := strategy_value_succeeds profile complete player strategy (List.mem_range.mp listed)
      exact ⟨value, here, trivial⟩
  refine ⟨values.map fun value => value - current, ?_⟩
  rw [regret, payoff, paid, ok_bind, valued, ok_bind]

theorem max_regret_succeeds (profile : Mixed α) (complete : profile.Complete) :
    ∃ regrets, profile.maxRegret = .ok (Arithmetic.largest regrets) := by
  obtain ⟨regrets, run, -⟩ := map_m_succeeds (List.range profile.players) profile.regret (fun _ _ => True)
    fun player listed => by
      obtain ⟨values, here⟩ := regret_succeeds profile complete player (List.mem_range.mp listed)
      exact ⟨_, here, trivial⟩
  exact ⟨regrets, by rw [maxRegret, run, ok_bind]⟩

theorem uniform_complete (table : PayoffTable α) (complete : table.Complete) : (uniform table).Complete := by
  refine ⟨complete, ?_⟩
  simp only [uniform, List.length_flatMap, List.length_replicate, List.map_id']
  rfl

end Mixed

end Reading

end NormalForm
