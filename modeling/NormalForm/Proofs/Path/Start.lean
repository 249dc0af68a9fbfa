import NormalForm.Proofs.Path.Equations

/-!
The start of a path over a complete table: it never faults, and where it does not report an error the
path is valid, stands at the uniform profile, and no player lacks strategies.
-/

set_option autoImplicit false

namespace NormalForm.Path

variable {α : Type} [Arithmetic α]

theorem initial_ranking_succeeds (profile : Mixed α) (complete : profile.Complete) (tolerance : α)
    (player : Nat) :
    ∃ outcome, initialRanking profile tolerance player = .ok outcome ∧
      ∀ ranking, outcome = .ok ranking → ranking.Valid (profile.table.strategyCount player) := by
  obtain ⟨values, run, each⟩ := map_m_succeeds (List.range (profile.table.strategyCount player))
    (profile.strategyValue player) (fun _ _ => True) fun strategy listed => by
      obtain ⟨value, here⟩ := profile.strategy_value_succeeds complete player strategy
        (List.mem_range.mp listed)
      exact ⟨value, here, trivial⟩
  have length : values.length = profile.table.strategyCount player := by
    rw [← each.length_eq, List.length_range]
  rcases Ranking.by_payoff_valid values tolerance with ⟨ranking, ranked, valid⟩ | ⟨a, b, tied, inside, -⟩
  · refine ⟨.ok ranking, by simp only [initialRanking, run, ranked, ok_bind], ?_⟩
    intro other same
    cases same
    exact length ▸ valid
  · refine ⟨.error (.tiedPayoffs player a b values[a]), ?_, nofun⟩
    simp only [initialRanking, run, tied, ok_bind, entry_inside values a inside]

theorem initial_rankings_succeed (profile : Mixed α) (complete : profile.Complete) (tolerance : α)
    (players : List Nat) :
    ∃ outcome, initialRankings profile tolerance players = .ok outcome ∧
      ∀ rankings, outcome = .ok rankings →
        List.Forall₂ (fun ranking player => ranking.Valid (profile.table.strategyCount player))
          rankings players := by
  induction players with
  | nil =>
      refine ⟨.ok [], rfl, ?_⟩
      intro rankings same
      cases same
      exact .nil
  | cons player rest ih =>
      obtain ⟨first, run, valid⟩ := initial_ranking_succeeds profile complete tolerance player
      obtain ⟨others, later, allValid⟩ := ih
      simp only [initialRankings, run, ok_bind]
      cases first with
      | error failure => exact ⟨.error failure, rfl, nofun⟩
      | ok ranking =>
          simp only [later, ok_bind]
          cases others with
          | error failure => exact ⟨.error failure, rfl, nofun⟩
          | ok rankings =>
              refine ⟨.ok (ranking :: rankings), rfl, ?_⟩
              intro all same
              cases same
              exact .cons (valid ranking rfl) (allValid rankings rfl)

theorem empty_player_none_iff (dims : Dimensions) : emptyPlayer? dims = none ↔ ∀ d ∈ dims, 0 < d := by
  rw [emptyPlayer?, List.findIdx?_eq_none_iff]
  simp [Nat.pos_iff_ne_zero]

-- Where every player has a strategy, a path starts unless strategies tie.
theorem start_tied (table : PayoffTable α) (config : Config α) (players : table.dims ≠ [])
    (strategies : ∀ d ∈ table.dims, 0 < d) (failure : SolveError α)
    (tied : initialRankings (.uniform table) (config.tieTolerance * Arithmetic.max table.scale Arithmetic.one)
      (List.range table.dims.length) = .ok (.error failure)) : start table config = .ok (.error failure) := by
  rw [start, if_neg players, (empty_player_none_iff table.dims).mpr strategies]
  simp only [tied, ok_bind]

theorem start_ranked (table : PayoffTable α) (config : Config α) (players : table.dims ≠ [])
    (strategies : ∀ d ∈ table.dims, 0 < d) (rankings : List Ranking)
    (ranked : initialRankings (.uniform table) (config.tieTolerance * Arithmetic.max table.scale Arithmetic.one)
      (List.range table.dims.length) = .ok (.ok rankings)) : ∃ path, start table config = .ok (.ok path) := by
  rw [start, if_neg players, (empty_player_none_iff table.dims).mpr strategies]
  simp only [ranked, ok_bind]
  exact ⟨_, rfl⟩

theorem start_state (table : PayoffTable α) (config : Config α) (path : Path α)
    (begun : start table config = .ok (.ok path)) : ∃ rankings,
      initialRankings (.uniform table) (config.tieTolerance * Arithmetic.max table.scale Arithmetic.one)
        (List.range table.dims.length) = .ok (.ok rankings) ∧
      path =
        { profile := .uniform table
          lambda := Arithmetic.one
          orientation := Arithmetic.one
          rankings
          pending := some .start
          merges := 0
          splits := 0 } := by
  rw [start] at begun
  split at begun
  · cases begun
  · split at begun
    · cases begun
    · obtain ⟨outcome, ranked, begun⟩ := bind_eq_ok.mp begun
      cases outcome with
      | error failure => cases begun
      | ok rankings =>
          cases begun
          exact ⟨rankings, ranked, rfl⟩

-- Where a run may begin.
structure Begins (table : PayoffTable α) (path : Path α) : Prop where
  valid : path.Valid
  profile : path.profile = .uniform table
  players : table.dims ≠ []
  strategies : ∀ d ∈ table.dims, 0 < d

theorem start_succeeds (table : PayoffTable α) (complete : table.Complete)
    (words : ∀ d ∈ table.dims, d < Word.size) (config : Config α) :
    ∃ outcome, start table config = .ok outcome ∧ ∀ path, outcome = .ok path → Begins table path := by
  rw [start]
  by_cases players : table.dims = []
  · exact ⟨.error .noPlayers, if_pos players, nofun⟩
  · rw [if_neg players]
    cases empty : emptyPlayer? table.dims with
    | some player => exact ⟨.error (.emptyPlayer player), rfl, nofun⟩
    | none =>
        obtain ⟨outcome, run, valid⟩ := initial_rankings_succeed (.uniform table)
          (Mixed.uniform_complete table complete)
          (config.tieTolerance * Arithmetic.max table.scale Arithmetic.one) (List.range table.dims.length)
        simp only [run, ok_bind]
        cases outcome with
        | error failure => exact ⟨.error failure, rfl, nofun⟩
        | ok rankings =>
            refine ⟨_, rfl, ?_⟩
            intro path same
            cases same
            refine ⟨⟨Mixed.uniform_complete table complete, words, ?_, ?_⟩, rfl, players,
              (empty_player_none_iff table.dims).mp empty⟩
            · have ranked := valid rankings rfl
              rw [← List.forall₂_map_right_iff] at ranked
              exact table.strategy_counts ▸ ranked
            · intro change waiting
              cases waiting
              trivial

/-! One player with two strategies, of which the first is worth more. -/

theorem lone_pair_start (table : PayoffTable α) (config : Config α) (dims : table.dims = [2]) (better worse : α)
    (values : (List.range 2).mapM ((Mixed.uniform table).strategyValue 0) = .ok [better, worse])
    (ordered : Ranking.ranksBefore (better, 0) (worse, 1) = true) :
    start table config =
      if Arithmetic.le (better - worse) (config.tieTolerance * Arithmetic.max table.scale Arithmetic.one) then
        .ok (.error (.tiedPayoffs 0 0 1 better))
      else .ok (.ok ⟨.uniform table, Arithmetic.one, Arithmetic.one, [⟨[[0], [1]]⟩], some .start, 0, 0⟩) := by
  have sorted : Ranking.descending [better, worse] = [(better, 0), (worse, 1)] :=
    List.mergeSort_of_pairwise (by simp [ordered])
  have count : (Mixed.uniform table).table.strategyCount 0 = 2 := table.strategy_count_known 0 2 (by rw [dims]; rfl)
  have players : List.range table.dims.length = [0] := by rw [dims]; rfl
  have nonempty : table.dims ≠ [] := by simp [dims]
  have full : emptyPlayer? table.dims = none := (empty_player_none_iff table.dims).mpr (by simp [dims])
  rw [start, if_neg nonempty, full]
  simp only [players, initialRankings, initialRanking, count, values, ok_bind, Ranking.byPayoff, sorted, Ranking.firstTie?]
  generalize Arithmetic.le (better - worse) _ = tied
  cases tied with
  | false => rfl
  | true => rfl

end NormalForm.Path
