import NormalForm.Proofs.Ranking.Validity

/-!
Merging and splitting undo each other. Of two rankings that differ in this way the finer one has two classes where
the coarser one has their union, and all the other classes keep their members and the ranks that they take up.
-/

set_option autoImplicit false

namespace NormalForm.Ranking

/-! Unions and their parts. -/

theorem others_of_union (upper lower : List Nat) (upperAscending : upper.Pairwise (· < ·))
    (lowerAscending : lower.Pairwise (· < ·)) (apart : upper.Disjoint lower) :
    others upper (union upper lower) = lower := by
  have ascending : (others upper (union upper lower)).Pairwise (· < ·) :=
    (union_ascending upper lower upperAscending).filter _
  apply ascending_ext _ _ ascending lowerAscending
  intro strategy
  rw [mem_others, mem_union]
  constructor
  · rintro ⟨inUpper | inLower, absent⟩
    · exact absurd inUpper absent
    · exact inLower
  · intro inLower
    exact ⟨.inr inLower, fun inUpper => apart inUpper inLower⟩

theorem union_of_parts (members top : List Nat) (ascending : members.Pairwise (· < ·))
    (within : ∀ strategy ∈ top, strategy ∈ members) : union (ofMembers top) (others top members) = members := by
  apply ascending_ext _ _ (union_ascending _ _ (of_members_ascending top)) ascending
  intro strategy
  rw [mem_union, mem_of_members]
  exact parts_cover top members within strategy

-- Classes that share no member have as many members together as their union.
theorem union_length (upper lower : List Nat) (upperAscending : upper.Pairwise (· < ·))
    (lowerAscending : lower.Pairwise (· < ·)) (apart : upper.Disjoint lower) :
    (union upper lower).length = upper.length + lower.length := by
  have distinct : (upper ++ lower).Nodup :=
    List.nodup_append'.mpr ⟨ascending_nodup upper upperAscending, ascending_nodup lower lowerAscending, apart⟩
  have perm : (union upper lower).Perm (upper ++ lower) :=
    (List.perm_ext_iff_of_nodup (ascending_nodup _ (union_ascending upper lower upperAscending)) distinct).mpr
      fun strategy => (mem_union upper lower strategy).trans List.mem_append.symm
  rw [perm.length_eq, List.length_append]

/-! One class for two, and two for one, below so many others. -/

theorem members_at (above below : List (List Nat)) (whole : List Nat) :
    members ⟨above ++ whole :: below⟩ above.length = .ok whole := by
  simp [members, entry]

theorem valid_neighbours (above below : List (List Nat)) (upper lower : List Nat) (n : Nat)
    (valid : Valid ⟨above ++ upper :: lower :: below⟩ n) :
    upper.Pairwise (· < ·) ∧ lower.Pairwise (· < ·) ∧ upper.Disjoint lower := by
  have apart := (List.pairwise_append.mp valid.disjoint).2.1
  exact ⟨valid.ascending upper (by simp), valid.ascending lower (by simp),
    (List.pairwise_cons.mp apart).1 lower List.mem_cons_self⟩

-- The finer ranking has two classes in the place of one.
structure Refines (fine coarse : Ranking) (rank : Nat) : Prop where
  size : fine.size = coarse.size + 1
  above : ∀ other < rank, coarse.members other = fine.members other
  below : ∀ other > rank, coarse.members other = fine.members (other + 1)
  parts : ∃ upper lower whole, fine.members rank = .ok upper ∧ fine.members (rank + 1) = .ok lower ∧
    coarse.members rank = .ok whole ∧ ∀ strategy, strategy ∈ whole ↔ strategy ∈ upper ∨ strategy ∈ lower
  offsetsAbove : ∀ other ≤ rank, coarse.rankOffset other = fine.rankOffset other
  offsetsBelow : ∀ other > rank, coarse.rankOffset other = fine.rankOffset (other + 1)

theorem refines_at (above below : List (List Nat)) (upper lower whole : List Nat)
    (same : ∀ strategy, strategy ∈ whole ↔ strategy ∈ upper ∨ strategy ∈ lower)
    (count : whole.length = upper.length + lower.length) :
    Refines ⟨above ++ upper :: lower :: below⟩ ⟨above ++ whole :: below⟩ above.length := by
  constructor
  · simp only [size, List.length_append, List.length_cons]
    omega
  · intro other before
    simp [members, entry, List.getElem?_append_left before]
  · intro other after
    obtain ⟨further, rfl⟩ := Nat.exists_eq_add_of_lt after
    simp only [members, entry, Nat.add_assoc, List.getElem?_append_right (Nat.le_add_right _ _), Nat.add_sub_cancel_left,
      List.getElem?_cons_succ]
  · have second : members ⟨above ++ upper :: lower :: below⟩ (above.length + 1) = .ok lower := by simp [members, entry]
    exact ⟨upper, lower, whole, members_at above _ upper, second, members_at above below whole, same⟩
  · intro other before
    have coarse : other ≤ (above ++ whole :: below).length := by
      rw [List.length_append]
      omega
    have fine : other ≤ (above ++ upper :: lower :: below).length := by
      rw [List.length_append]
      omega
    rw [rankOffset, rankOffset, size, size, if_pos coarse, if_pos fine, List.take_append_of_le_length before,
      List.take_append_of_le_length before]
  · intro other after
    obtain ⟨further, rfl⟩ := Nat.exists_eq_add_of_lt after
    simp only [rankOffset, size, Nat.add_assoc, List.take_length_add_append, List.take_succ_cons]
    simp [count, Nat.add_assoc]

theorem neighbours_refine (above below : List (List Nat)) (upper lower : List Nat) (n : Nat)
    (valid : Valid ⟨above ++ upper :: lower :: below⟩ n) :
    Refines ⟨above ++ upper :: lower :: below⟩ ⟨above ++ union upper lower :: below⟩ above.length := by
  obtain ⟨upperAscending, lowerAscending, apart⟩ := valid_neighbours above below upper lower n valid
  exact refines_at above below upper lower _ (mem_union upper lower)
    (union_length upper lower upperAscending lowerAscending apart)

/-! The ranks that the classes take up. -/

-- The ranks of the classes join on to one another, from the first rank to the last.
structure Tiles (ranking : Ranking) (n : Nat) : Prop where
  starts : ranking.rankOffset 0 = .ok 0
  adjoins : ∀ rank members, ranking.members rank = .ok members →
    ∃ offset, ranking.rankOffset rank = .ok offset ∧ ranking.rankOffset (rank + 1) = .ok (offset + members.length)
  ends : ranking.rankOffset ranking.size = .ok n

theorem valid_tiles (ranking : Ranking) (n : Nat) (valid : ranking.Valid n) : ranking.Tiles n := by
  constructor
  · exact ranking.rank_offset_inside 0 (Nat.zero_le _)
  · intro rank members found
    obtain ⟨inside, dropped⟩ := members_drop ranking rank members found
    refine ⟨_, ranking.rank_offset_inside rank (Nat.le_of_lt inside), ?_⟩
    have listed : ranking.classes[rank]? = some members := by
      rw [← List.head?_drop, dropped, List.head?_cons]
    rw [ranking.rank_offset_inside (rank + 1) inside, List.take_add_one, listed]
    simp
  · have whole : ranking.classes.take ranking.size = ranking.classes := List.take_length
    rw [ranking.rank_offset_inside ranking.size (Nat.le_refl _), whole]
    exact congrArg Except.ok (valid_count ranking n valid)

-- The strategies, and with them the classes, are numbered by machine words.
theorem merge_and_split_undo_each_other (ranking : Ranking) (n : Nat) (valid : ranking.Valid n) (word : n < Word.size)
    (rank : Nat) :
    (rank + 1 < ranking.size → ∃ merged members, ranking.merge rank = .ok merged ∧
      ranking.members rank = .ok members ∧ merged.split rank members = .ok ranking ∧
      merged.Valid n ∧ Refines ranking merged rank ∧ merged.strategyCount = n ∧ merged.Tiles n) ∧
    ∀ members top, ranking.members rank = .ok members → (∀ strategy ∈ top, strategy ∈ members) →
      0 < top.length → top.length < members.length →
      ∃ parted upper, ranking.split rank top = .ok parted ∧ parted.members rank = .ok upper ∧
        (∀ strategy, strategy ∈ upper ↔ strategy ∈ top) ∧ parted.merge rank = .ok ranking ∧
        parted.Valid n ∧ Refines parted ranking rank ∧ parted.strategyCount = n ∧ parted.Tiles n := by
  constructor
  · intro inside
    obtain ⟨merged, run, mergedValid⟩ := merge_valid ranking n rank valid inside word
    obtain ⟨above, upper, lower, below, rfl, rfl⟩ := neighbours_at ranking rank inside
    obtain ⟨upperAscending, lowerAscending, apart⟩ := valid_neighbours above below upper lower n valid
    have size := union_length upper lower upperAscending lowerAscending apart
    have merges := merge_at above below upper lower (valid_fits _ n valid word _ (Nat.le_of_lt inside))
    cases merges.symm.trans run
    have some := List.length_pos_of_ne_nil (valid.nonempty lower (by simp))
    have parts := split_at above below (union upper lower) upper (valid.nonempty upper (by simp)) (by omega)
      fun strategy member => (mem_union upper lower strategy).mpr (.inl member)
    rw [of_members_self upper upperAscending, others_of_union upper lower upperAscending lowerAscending apart] at parts
    exact ⟨_, upper, run, members_at above _ upper, parts, mergedValid, neighbours_refine above below upper lower n valid,
      valid_count _ n mergedValid, valid_tiles _ n mergedValid⟩
  · intro members top found within some proper
    have leaders : top ≠ [] := List.ne_nil_of_length_pos some
    obtain ⟨parted, run, partedValid, inside⟩ := split_valid ranking n rank members top valid found leaders proper within
    obtain ⟨above, below, rfl, rfl⟩ := class_at ranking rank members found
    have ascending := valid.ascending members (by simp)
    have parts := split_at above below members top leaders proper within
    cases parts.symm.trans run
    have merges := merge_at above below (ofMembers top) (others top members)
      (valid_fits _ n partedValid word _ (Nat.le_of_lt inside))
    have refined := neighbours_refine above below (ofMembers top) (others top members) n partedValid
    rw [union_of_parts members top ascending within] at merges refined
    exact ⟨_, ofMembers top, run, members_at above _ _, fun strategy => mem_of_members strategy top, merges,
      partedValid, refined, valid_count _ n partedValid, valid_tiles _ n partedValid⟩

-- The strategy to be split off is named twice.
theorem merge_and_split_undo_each_other_repeated :
    Valid ⟨[[1], [0, 3, 4], [2]]⟩ 5 ∧ 5 < Word.size ∧
      merge ⟨[[1], [0, 3, 4], [2]]⟩ 1 = .ok ⟨[[1], [0, 2, 3, 4]]⟩ ∧
      split ⟨[[1], [0, 2, 3, 4]]⟩ 1 [0, 3, 4] = .ok ⟨[[1], [0, 3, 4], [2]]⟩ ∧
      split ⟨[[1], [0, 3, 4], [2]]⟩ 1 [3, 3] = .ok ⟨[[1], [3], [0, 4], [2]]⟩ ∧
      merge ⟨[[1], [3], [0, 4], [2]]⟩ 1 = .ok ⟨[[1], [0, 3, 4], [2]]⟩ ∧
      Refines ⟨[[1], [3], [0, 4], [2]]⟩ ⟨[[1], [0, 3, 4], [2]]⟩ 1 := by
  have valid : Valid ⟨[[1], [0, 3, 4], [2]]⟩ 5 := by
    refine ⟨by decide, by decide, by simp, fun strategy => ?_⟩
    simp only [List.flatten_cons, List.flatten_nil, List.cons_append, List.nil_append, List.mem_cons, List.not_mem_nil,
      or_false]
    omega
  have word : 5 < Word.size := by decide
  obtain ⟨merges, splits⟩ := merge_and_split_undo_each_other _ 5 valid word 1
  obtain ⟨merged, members, run, found, back, -⟩ := merges (by decide)
  cases run
  cases found
  obtain ⟨parted, upper, parts, -, -, joined, -, refines, -⟩ :=
    splits [0, 3, 4] [3, 3] rfl (by decide) (by decide) (by decide)
  cases parts
  exact ⟨valid, word, rfl, back, rfl, joined, refines⟩

end NormalForm.Ranking
