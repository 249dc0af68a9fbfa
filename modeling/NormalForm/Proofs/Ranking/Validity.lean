import Mathlib.Algebra.BigOperators.Group.List.Basic
import Mathlib.Data.List.Nodup
import NormalForm.Proofs.Fault.Sequence
import NormalForm.Ranking

/-!
Valid rankings: non-empty ascending classes that part the strategies below some number. Merging two
neighbours and parting a class keep a ranking valid, and neither faults where it is asked for; the
ranking by payoff is valid when no two neighbours tie.
-/

set_option autoImplicit false

namespace NormalForm.Ranking

structure Valid (ranking : Ranking) (n : Nat) : Prop where
  nonempty : ∀ members ∈ ranking.classes, members ≠ []
  ascending : ∀ members ∈ ranking.classes, members.Pairwise (· < ·)
  disjoint : ranking.classes.Pairwise List.Disjoint
  covers : ∀ strategy, strategy ∈ ranking.classes.flatten ↔ strategy < n

/-! Ascending lists as sets. -/

theorem mem_insert_member (strategy other : Nat) (members : List Nat) :
    other ∈ insertMember strategy members ↔ other = strategy ∨ other ∈ members := by
  induction members with
  | nil => simp [insertMember]
  | cons first rest ih =>
      by_cases below : strategy < first
      · simp [insertMember, below]
      · by_cases same : strategy = first
        · simp [insertMember, same]
        · simp only [insertMember, if_neg below, if_neg same, List.mem_cons, ih]
          exact or_left_comm

theorem insert_member_ascending (strategy : Nat) (members : List Nat)
    (ascending : members.Pairwise (· < ·)) : (insertMember strategy members).Pairwise (· < ·) := by
  induction members with
  | nil => simp [insertMember]
  | cons first rest ih =>
      obtain ⟨least, tail⟩ := List.pairwise_cons.mp ascending
      by_cases below : strategy < first
      · rw [insertMember, if_pos below]
        refine List.pairwise_cons.mpr ⟨?_, ascending⟩
        intro other member
        rcases List.mem_cons.mp member with here | later
        · exact here ▸ below
        · exact Nat.lt_trans below (least other later)
      · by_cases same : strategy = first
        · simpa [insertMember, same] using ascending
        · rw [insertMember, if_neg below, if_neg same]
          refine List.pairwise_cons.mpr ⟨?_, ih tail⟩
          intro other member
          rcases (mem_insert_member strategy other rest).mp member with here | later
          · omega
          · exact least other later

theorem mem_of_members (other : Nat) (members : List Nat) : other ∈ ofMembers members ↔ other ∈ members := by
  induction members with
  | nil => simp [ofMembers]
  | cons first rest ih =>
      change other ∈ insertMember first (ofMembers rest) ↔ _
      rw [mem_insert_member, ih, List.mem_cons]

theorem of_members_ascending (members : List Nat) : (ofMembers members).Pairwise (· < ·) := by
  induction members with
  | nil => exact .nil
  | cons first rest ih => exact insert_member_ascending first (ofMembers rest) ih

theorem ascending_nodup (members : List Nat) (ascending : members.Pairwise (· < ·)) : members.Nodup :=
  ascending.imp Nat.ne_of_lt

theorem ascending_ext (a b : List Nat) (left : a.Pairwise (· < ·)) (right : b.Pairwise (· < ·))
    (same : ∀ strategy, strategy ∈ a ↔ strategy ∈ b) : a = b := by
  have perm := (List.perm_ext_iff_of_nodup (ascending_nodup a left) (ascending_nodup b right)).mpr same
  exact perm.eq_of_pairwise (fun _ _ _ _ less greater => absurd less (Nat.lt_asymm greater)) left right

theorem of_members_perm (members : List Nat) (nodup : members.Nodup) : (ofMembers members).Perm members :=
  (List.perm_ext_iff_of_nodup (ascending_nodup _ (of_members_ascending members)) nodup).mpr fun other =>
    mem_of_members other members

theorem of_members_self (members : List Nat) (ascending : members.Pairwise (· < ·)) :
    ofMembers members = members :=
  ascending_ext _ _ (of_members_ascending members) ascending fun other => mem_of_members other members

-- The union that merging forms.
def union (upper lower : List Nat) : List Nat := lower.foldl (fun all member => insertMember member all) upper

theorem mem_union (upper lower : List Nat) (strategy : Nat) :
    strategy ∈ union upper lower ↔ strategy ∈ upper ∨ strategy ∈ lower := by
  induction lower generalizing upper with
  | nil => simp [union]
  | cons first rest ih =>
      change strategy ∈ union (insertMember first upper) rest ↔ _
      rw [ih, mem_insert_member, List.mem_cons]
      exact or_assoc.trans or_left_comm

theorem union_ascending (upper lower : List Nat) (ascending : upper.Pairwise (· < ·)) :
    (union upper lower).Pairwise (· < ·) := by
  induction lower generalizing upper with
  | nil => exact ascending
  | cons first rest ih => exact ih _ (insert_member_ascending first upper ascending)

/-! What validity gives. -/

theorem valid_nodup (ranking : Ranking) (n : Nat) (valid : ranking.Valid n) :
    ranking.classes.flatten.Nodup :=
  List.nodup_flatten.mpr
    ⟨fun members member => ascending_nodup members (valid.ascending members member), valid.disjoint⟩

theorem valid_perm (ranking : Ranking) (n : Nat) (valid : ranking.Valid n) :
    ranking.classes.flatten.Perm (List.range n) :=
  (List.perm_ext_iff_of_nodup (valid_nodup ranking n valid) List.nodup_range).mpr
    fun strategy => (valid.covers strategy).trans List.mem_range.symm

theorem valid_count (ranking : Ranking) (n : Nat) (valid : ranking.Valid n) : ranking.strategyCount = n :=
  (valid_perm ranking n valid).length_eq.trans List.length_range

theorem classes_le_members (classes : List (List Nat)) (nonempty : ∀ members ∈ classes, members ≠ []) :
    classes.length ≤ classes.flatten.length := by
  have positive : ∀ size ∈ classes.map List.length, 1 ≤ size := by
    intro size member
    obtain ⟨members, listed, rfl⟩ := List.mem_map.mp member
    exact List.length_pos_of_ne_nil (nonempty members listed)
  have total := List.length_le_sum_of_one_le _ positive
  rwa [List.length_map, ← List.length_flatten] at total

theorem lone_members (classes : List (List Nat)) (nonempty : ∀ members ∈ classes, members ≠ [])
    (full : classes.flatten.length ≤ classes.length) : ∀ members ∈ classes, members.length = 1 := by
  induction classes with
  | nil => exact fun members listed => absurd listed List.not_mem_nil
  | cons first rest ih =>
      obtain ⟨some, others⟩ := List.forall_mem_cons.mp nonempty
      have here := List.length_pos_of_ne_nil some
      have below := classes_le_members rest others
      rw [List.flatten_cons, List.length_append, List.length_cons] at full
      exact List.forall_mem_cons.mpr ⟨by omega, ih others (by omega)⟩

theorem valid_size_le (ranking : Ranking) (n : Nat) (valid : ranking.Valid n) : ranking.size ≤ n :=
  Nat.le_trans (classes_le_members ranking.classes valid.nonempty) (Nat.le_of_eq (valid_count ranking n valid))

theorem valid_fits (ranking : Ranking) (n : Nat) (valid : ranking.Valid n) (word : n < Word.size) (rank : Nat)
    (inside : rank ≤ ranking.size) : Word.fits rank = true := by
  have bound := valid_size_le ranking n valid
  simp only [Word.fits, decide_eq_true_eq]
  omega

theorem valid_member_lt (ranking : Ranking) (n : Nat) (valid : ranking.Valid n) (members : List Nat)
    (listed : members ∈ ranking.classes) (strategy : Nat) (member : strategy ∈ members) : strategy < n :=
  (valid.covers strategy).mp (List.mem_flatten_of_mem listed member)

theorem members_inside (ranking : Ranking) (rank : Nat) (inside : rank < ranking.size) :
    ∃ members, ranking.members rank = .ok members ∧ members ∈ ranking.classes := by
  have found : ranking.classes[rank]? = some ranking.classes[rank] := List.getElem?_eq_getElem inside
  exact ⟨ranking.classes[rank], by simp only [members, entry, found], List.getElem_mem inside⟩

theorem rank_offset_inside (ranking : Ranking) (rank : Nat) (inside : rank ≤ ranking.size) :
    ranking.rankOffset rank = .ok (ranking.classes.take rank).flatten.length := by
  rw [rankOffset, if_pos inside]

theorem representative_member (members : List Nat) (nonempty : members ≠ []) :
    ∃ first, representative members = .ok first ∧ first ∈ members := by
  cases members with
  | nil => exact absurd rfl nonempty
  | cons first rest => exact ⟨first, rfl, List.mem_cons_self⟩

/-! Classes exchanged for others with the same strategies. -/

theorem exchange_valid (above block other below : List (List Nat)) (n : Nat)
    (valid : Valid ⟨above ++ block ++ below⟩ n)
    (nonempty : ∀ members ∈ other, members ≠ [])
    (ascending : ∀ members ∈ other, members.Pairwise (· < ·))
    (disjoint : other.Pairwise List.Disjoint)
    (same : ∀ strategy, strategy ∈ other.flatten ↔ strategy ∈ block.flatten) :
    Valid ⟨above ++ other ++ below⟩ n := by
  have old := valid.disjoint
  simp only [List.pairwise_append, List.mem_append] at old
  obtain ⟨⟨aboveDisjoint, -, aboveBlock⟩, belowDisjoint, across⟩ := old
  -- A class of the new block meets only what some class of the old block meets.
  have inBlock : ∀ members ∈ other, ∀ strategy ∈ members, ∃ old ∈ block, strategy ∈ old := by
    intro members listed strategy member
    exact List.mem_flatten.mp ((same strategy).mp (List.mem_flatten_of_mem listed member))
  have aboveOther : ∀ a ∈ above, ∀ b ∈ other, a.Disjoint b := by
    intro a inAbove b inOther strategy left right
    obtain ⟨old, listed, member⟩ := inBlock b inOther strategy right
    exact aboveBlock a inAbove old listed left member
  have acrossOther : ∀ a, a ∈ above ∨ a ∈ other → ∀ b ∈ below, a.Disjoint b := by
    intro a member b inBelow strategy left right
    rcases member with inAbove | inOther
    · exact across a (Or.inl inAbove) b inBelow left right
    · obtain ⟨old, listed, oldMember⟩ := inBlock a inOther strategy left
      exact across old (Or.inr listed) b inBelow oldMember right
  refine ⟨?_, ?_, ?_, ?_⟩
  · intro members listed
    simp only [List.mem_append] at listed
    rcases listed with (inAbove | inOther) | inBelow
    · exact valid.nonempty members (by simp [inAbove])
    · exact nonempty members inOther
    · exact valid.nonempty members (by simp [inBelow])
  · intro members listed
    simp only [List.mem_append] at listed
    rcases listed with (inAbove | inOther) | inBelow
    · exact valid.ascending members (by simp [inAbove])
    · exact ascending members inOther
    · exact valid.ascending members (by simp [inBelow])
  · simp only [List.pairwise_append, List.mem_append]
    exact ⟨⟨aboveDisjoint, disjoint, aboveOther⟩, belowDisjoint, acrossOther⟩
  · intro strategy
    have before := valid.covers strategy
    simp only [List.flatten_append, List.mem_append] at before ⊢
    rw [same strategy]
    exact before

theorem members_drop (ranking : Ranking) (rank : Nat) (members : List Nat)
    (found : ranking.members rank = .ok members) :
    rank < ranking.size ∧ ranking.classes.drop rank = members :: ranking.classes.drop (rank + 1) := by
  rw [Ranking.members, entry] at found
  split at found
  · rename_i value here
    cases found
    obtain ⟨inside, same⟩ := List.getElem?_eq_some_iff.mp here
    exact ⟨inside, by rw [List.drop_eq_getElem_cons inside, same]⟩
  · cases found

theorem class_at (ranking : Ranking) (rank : Nat) (members : List Nat) (found : ranking.members rank = .ok members) :
    ∃ above below, ranking = ⟨above ++ members :: below⟩ ∧ rank = above.length := by
  obtain ⟨inside, dropped⟩ := members_drop ranking rank members found
  have whole : ranking.classes = ranking.classes.take rank ++ members :: ranking.classes.drop (rank + 1) := by
    rw [← dropped, List.take_append_drop]
  exact ⟨_, _, congrArg mk whole, (List.length_take_of_le (Nat.le_of_lt inside)).symm⟩

theorem neighbours_at (ranking : Ranking) (rank : Nat) (inside : rank + 1 < ranking.size) :
    ∃ above upper lower below, ranking = ⟨above ++ upper :: lower :: below⟩ ∧ rank = above.length := by
  obtain ⟨upper, found, -⟩ := members_inside ranking rank (Nat.lt_of_succ_lt inside)
  obtain ⟨above, below, rfl, rfl⟩ := class_at ranking rank upper found
  cases below with
  | nil => simp [size] at inside
  | cons lower below => exact ⟨above, upper, lower, below, rfl, rfl⟩

theorem merge_at (above below : List (List Nat)) (upper lower : List Nat) (word : Word.fits (above.length + 1) = true) :
    merge ⟨above ++ upper :: lower :: below⟩ above.length = .ok ⟨above ++ union upper lower :: below⟩ := by
  simp [merge, word, union]

theorem merge_valid (ranking : Ranking) (n rank : Nat) (valid : ranking.Valid n)
    (inside : rank + 1 < ranking.size) (fits : n < Word.size) :
    ∃ merged, ranking.merge rank = .ok merged ∧ merged.Valid n := by
  obtain ⟨above, upper, lower, below, rfl, rfl⟩ := neighbours_at ranking rank inside
  have word := valid_fits _ n valid fits _ (Nat.le_of_lt inside)
  refine ⟨_, merge_at above below upper lower word, ?_⟩
  have old : Valid ⟨above ++ [upper, lower] ++ below⟩ n := by
    rw [List.append_assoc]
    exact valid
  have new := exchange_valid above [upper, lower] [union upper lower] below n old ?_ ?_ (List.pairwise_singleton _ _) ?_
  · simpa only [List.append_assoc, List.singleton_append] using new
  · intro members listed empty
    obtain ⟨first, member⟩ := List.exists_mem_of_ne_nil upper (valid.nonempty upper (by simp))
    have inUnion := (mem_union upper lower first).mpr (Or.inl member)
    rw [← List.mem_singleton.mp listed, empty] at inUnion
    exact List.not_mem_nil inUnion
  · intro members listed
    rw [List.mem_singleton.mp listed]
    exact union_ascending upper lower (valid.ascending upper (by simp))
  · intro strategy
    simp [mem_union]

-- The members of a class that splitting leaves below its leaders.
def others (top members : List Nat) : List Nat := members.filter fun strategy => !top.contains strategy

theorem mem_others (top members : List Nat) (strategy : Nat) :
    strategy ∈ others top members ↔ strategy ∈ members ∧ strategy ∉ top := by
  simp [others, List.mem_filter]

theorem others_nonempty (top members : List Nat) (nodup : members.Nodup) (proper : top.length < members.length) :
    others top members ≠ [] := by
  intro empty
  have covered : members ⊆ top := by
    intro strategy member
    by_contra absent
    have here := (mem_others top members strategy).mpr ⟨member, absent⟩
    rw [empty] at here
    cases here
  have sizes := nodup.length_le_of_subset covered
  omega

theorem parts_cover (top members : List Nat) (within : ∀ strategy ∈ top, strategy ∈ members) (strategy : Nat) :
    strategy ∈ top ∨ strategy ∈ others top members ↔ strategy ∈ members := by
  rw [mem_others]
  constructor
  · rintro (inTop | inLower)
    · exact within strategy inTop
    · exact inLower.1
  · intro member
    by_cases inTop : strategy ∈ top
    · exact Or.inl inTop
    · exact Or.inr ⟨member, inTop⟩

theorem parts_valid (above below : List (List Nat)) (members top : List Nat) (n : Nat)
    (valid : Valid ⟨above ++ [members] ++ below⟩ n) (leaders : top ≠ []) (proper : top.length < members.length)
    (within : ∀ strategy ∈ top, strategy ∈ members) :
    Valid ⟨above ++ [ofMembers top, others top members] ++ below⟩ n := by
  have ascending := valid.ascending members (by simp)
  apply exchange_valid above [members] [ofMembers top, others top members] below n valid
  · intro part member
    rcases List.mem_pair.mp member with rfl | rfl
    · obtain ⟨first, here⟩ := List.exists_mem_of_ne_nil top leaders
      exact List.ne_nil_of_mem ((mem_of_members first top).mpr here)
    · exact others_nonempty top members (ascending_nodup members ascending) proper
  · intro part member
    rcases List.mem_pair.mp member with rfl | rfl
    · exact of_members_ascending top
    · exact ascending.filter _
  · rw [List.pairwise_pair]
    intro strategy upper inLower
    exact ((mem_others top members strategy).mp inLower).2 ((mem_of_members strategy top).mp upper)
  · intro strategy
    simp only [List.flatten_cons, List.flatten_nil, List.append_nil, List.mem_append, mem_of_members]
    exact parts_cover top members within strategy

theorem split_at (above below : List (List Nat)) (members top : List Nat) (leaders : top ≠ [])
    (proper : top.length < members.length) (within : ∀ strategy ∈ top, strategy ∈ members) :
    split ⟨above ++ members :: below⟩ above.length top =
      .ok ⟨above ++ ofMembers top :: others top members :: below⟩ := by
  have parts : ¬ (top = [] ∨ members.length ≤ top.length) := by
    simp only [leaders, false_or]
    omega
  have contained : (top.all fun strategy => members.contains strategy) = true := by simpa using within
  simp only [split, List.drop_left, List.take_left, if_neg parts, if_pos contained]
  rfl

theorem split_valid (ranking : Ranking) (n rank : Nat) (members top : List Nat) (valid : ranking.Valid n)
    (found : ranking.members rank = .ok members) (leaders : top ≠ [])
    (proper : top.length < members.length) (within : ∀ strategy ∈ top, strategy ∈ members) :
    ∃ parted, ranking.split rank top = .ok parted ∧ parted.Valid n ∧ rank + 1 < parted.size := by
  obtain ⟨above, below, rfl, rfl⟩ := class_at ranking rank members found
  refine ⟨_, split_at above below members top leaders proper within, ?_, ?_⟩
  · have old : Valid ⟨above ++ [members] ++ below⟩ n := by
      rw [List.append_assoc]
      exact valid
    have new := parts_valid above below members top n old leaders proper within
    rwa [List.append_assoc] at new
  · simp only [size, List.length_append, List.length_cons]
    omega

/-! Strategies marked in a table. -/

-- The table of so many strategies in which those placed are marked.
def marks (total : Nat) (placed : List Nat) : List Bool := (List.range total).map fun strategy => placed.contains strategy

theorem marks_none (total : Nat) : marks total [] = List.replicate total false := by
  rw [marks, List.eq_replicate_iff]
  simp

theorem marks_at (total : Nat) (placed : List Nat) (strategy : Nat) (inside : strategy < total) :
    entry (marks total placed) strategy = .ok (placed.contains strategy) := by
  rw [entry_eq_ok, marks, List.getElem?_map, List.getElem?_range inside]
  rfl

theorem marks_set (total : Nat) (placed : List Nat) (strategy : Nat) :
    (marks total placed).set strategy true = marks total (strategy :: placed) := by
  apply List.ext_getElem
  · simp [marks]
  · intro other _ _
    by_cases same : strategy = other
    · simp [marks, same]
    · simp [marks, same, Ne.symm same]

-- The table is read only where it has an entry.
theorem mark_eq (total : Nat) (placed : List Nat) (strategy : Nat) :
    mark total (marks total placed) strategy =
      if strategy < total ∧ strategy ∉ placed then .ok (marks total (strategy :: placed))
      else .error (.misplacedStrategy strategy) := by
  rw [mark]
  by_cases inside : strategy < total
  · rw [if_pos inside, marks_at total placed strategy inside, ok_bind, marks_set]
    by_cases member : strategy ∈ placed
    · simp [member]
    · simp [inside, member]
  · rw [if_neg inside, if_neg fun fresh => inside fresh.1]

theorem mark_fresh (total : Nat) (placed members : List Nat) (nodup : members.Nodup)
    (fresh : ∀ strategy ∈ members, strategy < total ∧ strategy ∉ placed) :
    members.foldlM (mark total) (marks total placed) = .ok (marks total (members.reverse ++ placed)) := by
  induction members generalizing placed with
  | nil => rfl
  | cons first rest ih =>
      obtain ⟨absent, restNodup⟩ := List.nodup_cons.mp nodup
      rw [List.foldlM_cons, mark_eq, if_pos (fresh first List.mem_cons_self), ok_bind]
      have later := ih (first :: placed) restNodup ?_
      · simpa using later
      · intro strategy member
        obtain ⟨below, unseen⟩ := fresh strategy (List.mem_cons_of_mem first member)
        refine ⟨below, ?_⟩
        rw [List.mem_cons, not_or]
        exact ⟨fun same => absent (same ▸ member), unseen⟩

theorem mark_classes (total : Nat) (placed : List Nat) (classes : List (List Nat))
    (nonempty : ∀ members ∈ classes, members ≠ []) (nodup : classes.flatten.Nodup)
    (fresh : ∀ strategy ∈ classes.flatten, strategy < total ∧ strategy ∉ placed) :
    classes.foldlM (markClass total) (marks total placed) = .ok (marks total (classes.flatten.reverse ++ placed)) := by
  induction classes generalizing placed with
  | nil => rfl
  | cons members rest ih =>
      rw [List.flatten_cons, List.nodup_append] at nodup
      obtain ⟨membersNodup, restNodup, apart⟩ := nodup
      simp only [List.flatten_cons, List.mem_append] at fresh
      have here : markClass total (marks total placed) members = .ok (marks total (members.reverse ++ placed)) := by
        rw [markClass, if_neg (nonempty members List.mem_cons_self)]
        exact mark_fresh total placed members membersNodup fun strategy member =>
          fresh strategy (Or.inl member)
      rw [List.foldlM_cons, here, ok_bind]
      have later := ih (members.reverse ++ placed)
        (fun other member => nonempty other (List.mem_cons_of_mem members member)) restNodup ?_
      · simpa using later
      · intro strategy member
        obtain ⟨below, unseen⟩ := fresh strategy (Or.inr member)
        refine ⟨below, ?_⟩
        rw [List.mem_append, List.mem_reverse, not_or]
        exact ⟨fun earlier => apart strategy earlier strategy member rfl, unseen⟩

/-! The initial ranking. -/

theorem of_classes_valid (classes : List (List Nat)) (n : Nat) (valid : Valid ⟨classes⟩ n) :
    ofClasses classes = .ok ⟨classes⟩ := by
  have same : classes.map ofMembers = classes := by
    rw [List.map_congr_left fun members member =>
      of_members_self members (valid.ascending members member), List.map_id']
  have total : classes.flatten.length = n := valid_count ⟨classes⟩ n valid
  have marked := mark_classes n [] classes valid.nonempty (valid_nodup _ n valid) fun strategy member =>
    ⟨(valid.covers strategy).mp member, List.not_mem_nil⟩
  simp only [ofClasses, same, total, ← marks_none, marked]
  rfl

theorem singletons_valid (order : List Nat) (n : Nat) (perm : order.Perm (List.range n)) :
    Valid ⟨order.map fun strategy => [strategy]⟩ n := by
  refine ⟨?_, ?_, ?_, ?_⟩
  · simp
  · simp
  · rw [List.pairwise_map]
    refine (perm.nodup_iff.mpr List.nodup_range).imp ?_
    intro a b different
    simpa using Ne.symm different
  · intro strategy
    simp [perm.mem_iff]

section Payoff

variable {α : Type} [Arithmetic α]

theorem descending_perm (values : List α) :
    ((descending values).map Prod.snd).Perm (List.range values.length) := by
  have sorted := (List.mergeSort_perm values.zipIdx ranksBefore).map Prod.snd
  rwa [List.zipIdx_map_snd, ← List.range_eq_range'] at sorted

theorem first_tie_mem (tolerance : α) (sorted : List (α × Nat)) (a b : Nat)
    (tie : firstTie? tolerance sorted = some (a, b)) :
    a ∈ sorted.map Prod.snd ∧ b ∈ sorted.map Prod.snd := by
  induction sorted with
  | nil => simp [firstTie?] at tie
  | cons first rest ih =>
      cases rest with
      | nil => simp [firstTie?] at tie
      | cons second rest =>
          rw [firstTie?] at tie
          split at tie
          · simp only [Option.some.injEq, Prod.mk.injEq] at tie
            simp [← tie.1, ← tie.2]
          · obtain ⟨left, right⟩ := ih tie
            exact ⟨List.mem_cons_of_mem _ left, List.mem_cons_of_mem _ right⟩

theorem by_payoff_untied (values : List α) (tolerance : α) (untied : firstTie? tolerance (descending values) = none) :
    byPayoff values tolerance = .ok (.ok ⟨((descending values).map Prod.snd).map fun strategy => [strategy]⟩) := by
  have built := of_classes_valid _ _ (singletons_valid _ _ (descending_perm values))
  have classes : ((descending values).map fun pair => [pair.2]) =
      ((descending values).map Prod.snd).map fun strategy => [strategy] := by
    rw [List.map_map]
    rfl
  simp only [byPayoff, untied, classes, built]
  rfl

theorem by_payoff_tied (values : List α) (tolerance : α) (a b : Nat)
    (tie : firstTie? tolerance (descending values) = some (a, b)) :
    byPayoff values tolerance = .ok (.error (min a b, max a b)) := by
  simp only [byPayoff, tie]

-- Either a valid ranking, or two strategies that exist.
theorem by_payoff_valid (values : List α) (tolerance : α) :
    (∃ ranking, byPayoff values tolerance = .ok (.ok ranking) ∧ ranking.Valid values.length) ∨
      ∃ a b, byPayoff values tolerance = .ok (.error (a, b)) ∧ a < values.length ∧ b < values.length := by
  have perm := descending_perm values
  cases tie : firstTie? tolerance (descending values) with
  | none => exact .inl ⟨_, by_payoff_untied values tolerance tie, singletons_valid _ _ perm⟩
  | some pair =>
      obtain ⟨a, b⟩ := pair
      obtain ⟨left, right⟩ := first_tie_mem tolerance _ a b tie
      rw [perm.mem_iff, List.mem_range] at left right
      exact .inr ⟨_, _, by_payoff_tied values tolerance a b tie, by omega, by omega⟩

end Payoff

end NormalForm.Ranking
