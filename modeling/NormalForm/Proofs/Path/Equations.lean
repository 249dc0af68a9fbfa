import NormalForm.Path.Jacobian
import NormalForm.Proofs.Mixed.Reading
import NormalForm.Proofs.Ranking.Validity

/-!
The matrix of a valid path: it can always be built, has one row per strategy and one column more, and
holds the mass equation of every class of every player.
-/

set_option autoImplicit false

namespace NormalForm

variable {α : Type}

-- The players and strategies that a pending change names exist.
def Restructure.Fits (table : PayoffTable α) : Restructure → Prop
  | .start => True
  | .merged player upper =>
      player < table.dims.length ∧ ∀ strategy ∈ upper, strategy < table.strategyCount player
  | .parted player upper lower =>
      upper < table.strategyCount player ∧ lower < table.strategyCount player

namespace Path

structure Valid (path : Path α) : Prop where
  profile : path.profile.Complete
  words : ∀ d ∈ path.table.dims, d < Word.size
  rankings : List.Forall₂ Ranking.Valid path.rankings path.table.dims
  pending : ∀ change ∈ path.pending, change.Fits path.table

theorem valid_ranking (path : Path α) (valid : path.Valid) (player : Nat) (ranking : Ranking)
    (found : path.rankings[player]? = some ranking) :
    player < path.table.dims.length ∧ ranking.Valid (path.table.strategyCount player) := by
  obtain ⟨inside, rfl⟩ := List.getElem?_eq_some_iff.mp found
  have known : player < path.table.dims.length := valid.rankings.length_eq ▸ inside
  refine ⟨known, ?_⟩
  have fits := valid.rankings.get inside known
  have count := path.table.strategy_count_known player _ (List.getElem?_eq_getElem known)
  simpa only [count, List.get_eq_getElem] using fits

/-! The mass equation of a class. -/

theorem set_entries (own : Nat) (value : α) (members : List Nat) (row : List α)
    (inside : ∀ strategy ∈ members, own + strategy < row.length) :
    ∃ filled, members.foldlM (fun row strategy => setEntry row (own + strategy) value) row = .ok filled ∧
      filled.length = row.length ∧
      ∀ column < row.length,
        filled[column]? = if column ∈ members.map (own + ·) then some value else row[column]? := by
  induction members generalizing row with
  | nil => exact ⟨row, rfl, rfl, fun column _ => by simp⟩
  | cons first rest ih =>
      have here := inside first List.mem_cons_self
      obtain ⟨filled, run, length, entries⟩ := ih (row.set (own + first) value) fun strategy member => by
        rw [List.length_set]
        exact inside strategy (List.mem_cons_of_mem first member)
      rw [List.length_set] at length entries
      refine ⟨filled, ?_, length, ?_⟩
      · rw [List.foldlM_cons, setEntry, if_pos here, ok_bind, run]
      · intro column known
        rw [entries column known, List.getElem?_set]
        by_cases same : own + first = column
        · simp [same, known]
        · simp [same, Ne.symm same]

section Rows

variable [Arithmetic α]

-- The derivative by lambda of the mass equation of a class with these probabilities.
def massRate (path : Path α) (player size ranked : Nat) (shares : List α) : α :=
  Arithmetic.sum shares *
      Arithmetic.sum ((List.range (path.table.strategyCount player)).map (rankDerivative path.lambda)) -
    Arithmetic.sum ((List.range' ranked size).map (rankDerivative path.lambda))

-- A row that states, for a class with the ranks from `ranked` on, its probability times the sum of
-- the rank weights against the weights of its ranks.
structure MassRow (path : Path α) (player : Nat) (members : List Nat) (ranked : Nat) (row : List α) :
    Prop where
  length : row.length = path.table.dims.total + 1
  strategies : ∀ column < path.table.dims.total, row[column]? = some
    (if column ∈ members.map (path.table.dims.offset player + ·)
      then rankWeights path.lambda (path.table.strategyCount player) else Arithmetic.zero)
  lambda : ∃ shares, members.mapM (path.profile.probability player) = .ok shares ∧
    row[path.table.dims.total]? = some (massRate path player members.length ranked shares)

theorem mass_row_succeeds (path : Path α) (valid : path.Valid) (player : Nat) (members : List Nat)
    (ranked : Nat) (inside : player < path.table.dims.length)
    (below : ∀ strategy ∈ members, strategy < path.table.strategyCount player) :
    ∃ row, path.massRow player members ranked = .ok row ∧ MassRow path player members ranked row := by
  have known := path.table.strategy_count_inside player inside
  obtain ⟨shares, read, -⟩ := map_m_succeeds members (path.profile.probability player) (fun _ _ => True)
    fun strategy member => by
      obtain ⟨value, here⟩ := path.profile.probability_succeeds player strategy valid.profile.length
        (below strategy member)
      exact ⟨value, here, trivial⟩
  let blank := List.replicate (path.table.dims.total + 1) (Arithmetic.zero : α)
  have places : ∀ strategy ∈ members, path.table.dims.offset player + strategy < path.table.dims.total :=
    fun strategy member => Dimensions.offset_lt_total _ player strategy _ known (below strategy member)
  obtain ⟨filled, run, length, entries⟩ := set_entries (path.table.dims.offset player)
    (rankWeights path.lambda (path.table.strategyCount player)) members blank fun strategy member => by
      have place := places strategy member
      simp only [blank, List.length_replicate]
      omega
  simp only [blank, List.length_replicate] at length entries
  let rate := massRate path player members.length ranked shares
  refine ⟨filled.set path.table.dims.total rate, ?_, ⟨?_, ?_, shares, read, ?_⟩⟩
  · simp only [massRow, path.profile.offset_inside player inside, read, ok_bind]
    change (members.foldlM _ blank >>= _) = _
    rw [show path.profile.table = path.table from rfl, run, ok_bind, setEntry, length,
      if_pos (Nat.lt_succ_self _)]
    rfl
  · rw [List.length_set, length]
  · intro column column_lt
    rw [List.getElem?_set_ne (Nat.ne_of_gt column_lt), entries column (Nat.lt_succ_of_lt column_lt)]
    have blankHere : blank[column]? = some Arithmetic.zero := by
      rw [List.getElem?_replicate, if_pos (Nat.lt_succ_of_lt column_lt)]
    rw [blankHere]
    split <;> rfl
  · rw [List.getElem?_set_self (by omega)]

/-! The equations that members of a class earn the same. -/

theorem gap_entries_succeed (path : Path α) (valid : path.Valid) (player first strategy other : Nat)
    (firstBelow : first < path.table.strategyCount player)
    (below : strategy < path.table.strategyCount player) :
    ∃ rates, path.gapEntries player first strategy other = .ok rates ∧
      rates.length = path.table.strategyCount other := by
  obtain ⟨rates, run, each⟩ := map_m_succeeds (List.range (path.table.strategyCount other))
    (fun otherStrategy => do
      if other = player then .ok Arithmetic.zero
      else
        let upper ← path.profile.derivative player first other otherStrategy
        let lower ← path.profile.derivative player strategy other otherStrategy
        .ok (upper - lower))
    (fun _ _ => True) fun otherStrategy listed => by
      have otherBelow := List.mem_range.mp listed
      obtain ⟨upper, upperRun⟩ := path.profile.derivative_succeeds valid.profile player first other
        otherStrategy firstBelow otherBelow
      obtain ⟨lower, lowerRun⟩ := path.profile.derivative_succeeds valid.profile player strategy other
        otherStrategy below otherBelow
      by_cases same : other = player
      · exact ⟨Arithmetic.zero, if_pos same, trivial⟩
      · exact ⟨upper - lower, by rw [if_neg same, upperRun, ok_bind, lowerRun, ok_bind], trivial⟩
  exact ⟨rates, run, by rw [← each.length_eq, List.length_range]⟩

theorem gap_row_succeeds (path : Path α) (valid : path.Valid) (player first strategy : Nat)
    (firstBelow : first < path.table.strategyCount player)
    (below : strategy < path.table.strategyCount player) :
    ∃ row, path.gapRow player first strategy = .ok row ∧ row.length = path.table.dims.total + 1 := by
  obtain ⟨parts, run, each⟩ := map_m_succeeds (List.range path.profile.players)
    (path.gapEntries player first strategy)
    (fun other rates => rates.length = path.table.strategyCount other) fun other _ =>
      gap_entries_succeed path valid player first strategy other firstBelow below
  refine ⟨parts.flatten ++ [Arithmetic.zero], by rw [gapRow, run, ok_bind], ?_⟩
  have size := Dimensions.flatten_length path.table.strategyCount _ parts each
  rw [show path.profile.players = path.table.dims.length from rfl, path.table.strategy_counts] at size
  rw [List.length_append, size, List.length_singleton]

/-! The matrix. -/

theorem class_rows_succeed (path : Path α) (valid : path.Valid) (player rank : Nat) (ranking : Ranking)
    (members : List Nat) (inside : player < path.table.dims.length)
    (ranked : ranking.Valid (path.table.strategyCount player)) (found : ranking.classes[rank]? = some members) :
    ∃ rows, path.classRows player ranking rank = .ok rows ∧ rows.length = members.length ∧
      (∀ row ∈ rows, row.length = path.table.dims.total + 1) ∧
      ∃ row ∈ rows, MassRow path player members (ranking.classes.take rank).flatten.length row := by
  have listed : members ∈ ranking.classes := List.mem_of_getElem? found
  have below := Ranking.valid_member_lt ranking _ ranked members listed
  have rankInside : rank ≤ ranking.size := Nat.le_of_lt (List.getElem?_eq_some_iff.mp found).1
  obtain ⟨mass, massRun, isMass⟩ := mass_row_succeeds path valid player members
    (ranking.classes.take rank).flatten.length inside below
  obtain ⟨first, chosen, firstMember⟩ := Ranking.representative_member members
    (ranked.nonempty members listed)
  obtain ⟨gaps, gapsRun, each⟩ := map_m_succeeds members.tail (path.gapRow player first)
    (fun _ row => row.length = path.table.dims.total + 1) fun strategy member =>
      gap_row_succeeds path valid player first strategy (below first firstMember)
        (below strategy (List.mem_of_mem_tail member))
  refine ⟨mass :: gaps, ?_, ?_, ?_, mass, List.mem_cons_self, isMass⟩
  · have read : ranking.members rank = .ok members := (entry_eq_ok _ _ _).mpr found
    rw [classRows, read, ok_bind, Ranking.rank_offset_inside ranking rank rankInside, ok_bind, massRun, ok_bind,
      chosen, ok_bind, gapsRun, ok_bind]
  · have positive := List.length_pos_of_ne_nil (ranked.nonempty members listed)
    rw [List.length_cons, ← each.length_eq, List.length_tail]
    omega
  · intro row member
    rcases List.mem_cons.mp member with here | later
    · exact here ▸ isMass.length
    · obtain ⟨strategy, -, size⟩ := forall₂_source members.tail gaps each row later
      exact size

theorem player_rows_succeed (path : Path α) (valid : path.Valid) (player : Nat) (ranking : Ranking)
    (found : path.rankings[player]? = some ranking) :
    ∃ rows, path.playerRows player = .ok rows ∧ rows.length = path.table.strategyCount player ∧
      (∀ row ∈ rows, row.length = path.table.dims.total + 1) ∧
      ∀ rank members, ranking.classes[rank]? = some members →
        ∃ row ∈ rows, MassRow path player members (ranking.classes.take rank).flatten.length row := by
  obtain ⟨inside, ranked⟩ := valid_ranking path valid player ranking found
  have count := Ranking.valid_count ranking _ ranked
  let sizeOf := fun rank : Nat => ((ranking.classes[rank]?).getD []).length
  obtain ⟨parts, run, each⟩ := map_m_succeeds (List.range ranking.size) (path.classRows player ranking)
    (fun rank rows => rows.length = sizeOf rank ∧
      (∀ row ∈ rows, row.length = path.table.dims.total + 1) ∧
      ∀ members, ranking.classes[rank]? = some members →
        ∃ row ∈ rows, MassRow path player members (ranking.classes.take rank).flatten.length row)
    fun rank listed => by
      have known := List.getElem?_eq_getElem (List.mem_range.mp listed : rank < ranking.classes.length)
      obtain ⟨rows, here, size, widths, mass⟩ :=
        class_rows_succeed path valid player rank ranking _ inside ranked known
      refine ⟨rows, here, by simp only [sizeOf, known, Option.getD_some, size], widths, ?_⟩
      intro members same
      cases Option.some.inj (same.symm.trans known)
      exact mass
  refine ⟨parts.flatten, ?_, ?_, ?_, ?_⟩
  · have read : entry path.rankings player = .ok ranking := (entry_eq_ok _ _ _).mpr found
    rw [playerRows, read, ok_bind, if_neg (not_not.mpr count), run, ok_bind]
  · have sizes : (List.range ranking.size).map sizeOf = ranking.classes.map List.length := by
      apply List.ext_getElem
      · simp [Ranking.size]
      · intro rank _ known
        rw [List.length_map] at known
        simp [sizeOf, known]
    have whole := Dimensions.flatten_length List.length ranking.classes ranking.classes
      (List.forall₂_same.mpr fun _ _ => rfl)
    rw [Dimensions.flatten_length sizeOf _ parts (each.imp fun _ _ fits => fits.1), sizes]
    exact whole.symm.trans count
  · intro row member
    obtain ⟨rows, listed, inRows⟩ := List.mem_flatten.mp member
    obtain ⟨_, -, -, widths, -⟩ := forall₂_source _ parts each rows listed
    exact widths row inRows
  · intro rank members known
    have listed : rank ∈ List.range ranking.size := List.mem_range.mpr (List.getElem?_eq_some_iff.mp known).1
    obtain ⟨rows, inParts, -, -, mass⟩ := forall₂_value _ parts each rank listed
    obtain ⟨row, inRows, isMass⟩ := mass members known
    exact ⟨row, List.mem_flatten_of_mem inParts inRows, isMass⟩

theorem jacobian_height (path : Path α) (rows : List (List α)) (built : path.jacobian = .ok rows) :
    rows.length = path.table.dims.total := by
  obtain ⟨parts, -, built⟩ := bind_eq_ok.mp built
  split at built
  · rename_i height
    cases built
    exact height
  · cases built

theorem jacobian_succeeds (path : Path α) (valid : path.Valid) :
    ∃ rows, path.jacobian = .ok rows ∧ rows.length = path.table.dims.total ∧
      (∀ row ∈ rows, row.length = path.table.dims.total + 1) ∧
      ∀ player ranking rank members, path.rankings[player]? = some ranking →
        ranking.classes[rank]? = some members →
        ∃ row ∈ rows, MassRow path player members (ranking.classes.take rank).flatten.length row := by
  obtain ⟨parts, run, each⟩ := map_m_succeeds (List.range path.rankings.length) path.playerRows
    (fun player rows => rows.length = path.table.strategyCount player ∧
      (∀ row ∈ rows, row.length = path.table.dims.total + 1) ∧
      ∀ ranking rank members, path.rankings[player]? = some ranking →
        ranking.classes[rank]? = some members →
        ∃ row ∈ rows, MassRow path player members (ranking.classes.take rank).flatten.length row)
    fun player listed => by
      have known := List.getElem?_eq_getElem (List.mem_range.mp listed)
      obtain ⟨rows, here, size, widths, mass⟩ := player_rows_succeed path valid player _ known
      refine ⟨rows, here, size, widths, ?_⟩
      intro ranking rank members same
      cases Option.some.inj (same.symm.trans known)
      exact mass rank members
  have size : parts.flatten.length = path.table.dims.total := by
    rw [Dimensions.flatten_length path.table.strategyCount _ parts (each.imp fun _ _ fits => fits.1),
      valid.rankings.length_eq, path.table.strategy_counts]
  refine ⟨parts.flatten, by rw [jacobian, run, ok_bind, if_pos size], size, ?_, ?_⟩
  · intro row member
    obtain ⟨rows, listed, inRows⟩ := List.mem_flatten.mp member
    obtain ⟨_, -, -, widths, -⟩ := forall₂_source _ parts each rows listed
    exact widths row inRows
  · intro player ranking rank members known class_known
    have listed : player ∈ List.range path.rankings.length :=
      List.mem_range.mpr (List.getElem?_eq_some_iff.mp known).1
    obtain ⟨rows, inParts, -, -, mass⟩ := forall₂_value _ parts each player listed
    obtain ⟨row, inRows, isMass⟩ := mass ranking rank members known class_known
    exact ⟨row, List.mem_flatten_of_mem inParts inRows, isMass⟩

end Rows

end Path

end NormalForm
