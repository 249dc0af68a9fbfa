import Mathlib.Order.Bounds.Defs
import NormalForm.Proofs.Exact.Crossing
import NormalForm.Proofs.Path.Leaders

/-!
The leaders of a class in exact arithmetic. Only groups of the most probable members are tried, but no group
holds more than the most probable ones of its size, so that what is found is a smallest group of all that hold
the weight of the ranks they would take.
-/

set_option autoImplicit false

namespace NormalForm

instance : Std.TransCmp (Arithmetic.order (α := ℝ)) :=
  inferInstanceAs (Std.TransCmp (compare (α := ℝ)))

namespace Path

-- What `count` ranks from `ranked` on weigh, as a share of the weight of all ranks.
noncomputable def rankShare (path : Path ℝ) (player ranked count : Nat) : ℝ :=
  ∑ i ∈ Finset.range count,
    path.lambda ^ (ranked + i) / ∑ r ∈ Finset.range (path.table.strategyCount player), path.lambda ^ r

def groupMass (path : Path ℝ) (player : Nat) (group : Finset Nat) : ℝ :=
  ∑ strategy ∈ group, path.profile.share player strategy

-- A part of a class that holds what the ranks it would take weigh.
structure Due (path : Path ℝ) (player : Nat) (members : List Nat) (ranked : Nat) (group : Finset Nat) : Prop where
  nonempty : group.Nonempty
  proper : group ⊂ members.toFinset
  earned : path.rankShare player ranked group.card ≤ path.groupMass player group

-- More probable, or as probable and of a lower number.
def Precedes (path : Path ℝ) (player first other : Nat) : Prop :=
  path.profile.share player other < path.profile.share player first ∨
    path.profile.share player other = path.profile.share player first ∧ first < other

end Path

namespace Exact

open NormalForm.Path

theorem running_sum {β : Type} (term : β → ℝ) (items : List β) (start : ℝ) :
    items.foldl (fun held item => held + term item) start = start + (items.map term).sum := by
  induction items generalizing start with
  | nil => simp
  | cons first rest ih => rw [List.foldl_cons, ih, List.map_cons, List.sum_cons, add_assoc]

-- What one group has beyond the other is exchanged for as many that weigh no less.
theorem leading_sum_greatest (weight : Nat → ℝ) (leading group : Finset Nat) (sizes : group.card = leading.card)
    (leads : ∀ first ∈ leading, ∀ other ∈ group, other ∉ leading → weight other ≤ weight first) :
    ∑ strategy ∈ group, weight strategy ≤ ∑ strategy ∈ leading, weight strategy := by
  rw [← Finset.sum_sdiff_le_sum_sdiff]
  have exchanged : (group \ leading).card = (leading \ group).card := Finset.card_sdiff_comm sizes
  rcases (leading \ group).eq_empty_or_nonempty with empty | some
  · rw [empty, Finset.card_empty, Finset.card_eq_zero] at exchanged
    rw [empty, exchanged]
  · obtain ⟨last, listed, least⟩ := Finset.exists_min_image _ weight some
    have lastLeads := (Finset.mem_sdiff.mp listed).1
    have upper := Finset.sum_le_card_nsmul (group \ leading) weight (weight last) fun other member =>
      leads last lastLeads other (Finset.mem_sdiff.mp member).1 (Finset.mem_sdiff.mp member).2
    have lower := Finset.card_nsmul_le_sum (leading \ group) weight (weight last) least
    rw [exchanged] at upper
    exact upper.trans lower

section Class

variable (path : Path ℝ) (player ranked : Nat) (members : List Nat) (sorted : List (ℝ × Nat))
  (leads : path.ByProbability player members sorted)

include leads

theorem weighed_share (pair : ℝ × Nat) (listed : pair ∈ sorted) : path.profile.share player pair.2 = pair.1 :=
  path.profile.share_of_probability player pair.2 pair.1 (leads.weighs pair listed)

theorem leading_precede (count : Nat) (first other : Nat) (leading : first ∈ (sorted.map Prod.snd).take count)
    (member : other ∈ members) (behind : other ∉ (sorted.map Prod.snd).take count) :
    path.Precedes player first other := by
  rw [← List.map_take] at leading behind
  obtain ⟨a, inLead, rfl⟩ := List.mem_map.mp leading
  obtain ⟨b, inSorted, rfl⟩ := List.mem_map.mp (leads.names.mem_iff.mpr member)
  have ordered := leads.ordered
  rw [← List.take_append_drop count sorted, List.pairwise_append] at ordered
  have inRest : b ∈ sorted.drop count := by
    rw [← List.take_append_drop count sorted, List.mem_append] at inSorted
    exact inSorted.resolve_left fun inLead => behind (List.mem_map_of_mem inLead)
  have different : a.2 ≠ b.2 := fun same => behind (same ▸ List.mem_map_of_mem inLead)
  have before := (Ranking.ranks_before_cases a b).mp (ordered.2.2 a inLead b inRest)
  rw [Precedes, weighed_share path player members sorted leads a (List.mem_of_mem_take inLead),
    weighed_share path player members sorted leads b (List.mem_of_mem_drop inRest)]
  refine before.imp compare_lt_iff_lt.mp fun level => ⟨compare_eq_iff_eq.mp level.1, ?_⟩
  omega

theorem group_earns_iff (nodup : members.Nodup) (count : Nat) :
    path.groupEarns player ranked sorted count = true ↔ path.rankShare player ranked count ≤
      path.groupMass player ((sorted.map Prod.snd).take count).toFinset := by
  have distinct : ((sorted.map Prod.snd).take count).Nodup :=
    (leads.names.nodup_iff.mpr nodup).sublist (List.take_sublist count _)
  have held : ((sorted.take count).map Prod.fst).sum =
      path.groupMass player ((sorted.map Prod.snd).take count).toFinset := by
    rw [groupMass, List.sum_toFinset _ distinct, ← List.map_take, List.map_map]
    refine congrArg List.sum (List.map_congr_left fun pair listed => ?_)
    exact (weighed_share path player members sorted leads pair (List.mem_of_mem_take listed)).symm
  have due : ((List.range' ranked count).map fun r =>
      path.lambda ^ r / rankWeights path.lambda (path.table.strategyCount player)).sum =
        path.rankShare player ranked count := by
    rw [sum_of_interval, Finset.sum_Ico_eq_sum_range, Nat.add_sub_cancel_left, rankShare]
    simp only [rankWeights, sum_eq, power_eq, sum_of_range]
  rw [groupEarns, hasEarned, le_eq, decide_eq_true_eq, running_sum, running_sum, zero_eq, zero_add, zero_add]
  simp only [power_eq]
  rw [held, due]

-- There is a group of this size that is due ranks just where the most probable members are.
theorem due_of_size_iff (nodup : members.Nodup) (count : Nat) :
    (∃ group, path.Due player members ranked group ∧ group.card = count) ↔
      0 < count ∧ count < members.length ∧ path.groupEarns player ranked sorted count = true := by
  have names : (sorted.map Prod.snd).length = members.length := leads.names.length_eq
  have distinct := leads.names.nodup_iff.mpr nodup
  have leadingSize (inside : count < members.length) : ((sorted.map Prod.snd).take count).toFinset.card = count := by
    rw [List.toFinset_card_of_nodup (distinct.sublist (List.take_sublist count _)), List.length_take]
    omega
  have whole : members.toFinset.card = members.length := List.toFinset_card_of_nodup nodup
  rw [group_earns_iff path player ranked members sorted leads nodup]
  constructor
  · rintro ⟨group, due, rfl⟩
    have inside : group.card < members.length := whole ▸ Finset.card_lt_card due.proper
    refine ⟨due.nonempty.card_pos, inside, due.earned.trans ?_⟩
    refine leading_sum_greatest _ _ group (leadingSize inside).symm fun first leading other member behind => ?_
    rw [List.mem_toFinset] at leading behind
    have known : other ∈ members := List.mem_toFinset.mp (due.proper.subset member)
    exact (leading_precede path player members sorted leads _ first other leading known behind).elim le_of_lt
      fun level => le_of_eq level.1
  · rintro ⟨positive, inside, earned⟩
    have size := leadingSize inside
    refine ⟨((sorted.map Prod.snd).take count).toFinset, ⟨?_, ?_, size.symm ▸ earned⟩, size⟩
    · exact Finset.card_pos.mp (size.symm ▸ positive)
    · refine Finset.ssubset_iff_subset_ne.mpr ⟨fun strategy leading => ?_, fun same => ?_⟩
      · rw [List.mem_toFinset] at leading ⊢
        exact leads.names.mem_iff.mp (List.mem_of_mem_take leading)
      · rw [same, whole] at size
        omega

end Class

end Exact

namespace Path

-- Every profile counts, every lambda, and any strategies of the player for a class.
theorem split_point_is_optimal (path : Path ℝ) (entries : path.profile.probabilities.length = path.table.dims.total)
    (player ranked : Nat) (members : List Nat) (nodup : members.Nodup)
    (below : ∀ strategy ∈ members, strategy < path.table.strategyCount player) (several : 2 ≤ members.length) :
    ∃ point, path.splitPoint? player members ranked = .ok point ∧
      (point.isSome ↔ ∃ group, path.Due player members ranked group) ∧
      (∀ top, point = some top →
        IsLeast {size | ∃ group, path.Due player members ranked group ∧ group.card = size} top.length ∧
          top.Nodup ∧ (∀ first ∈ top, first ∈ members) ∧
          ∀ first ∈ top, ∀ other ∈ members, other ∉ top → path.Precedes player first other) ∧
      (point = none → ∀ group : Finset Nat, group.Nonempty → group ⊂ members.toFinset →
        path.groupMass player group < path.rankShare player ranked group.card) := by
  obtain ⟨sorted, run, -⟩ := by_probability_succeeds path entries player members below
  have leads := by_probability_spec path player members sorted run
  have nonempty : members ≠ [] := List.ne_nil_of_length_pos (by omega)
  have due := Exact.due_of_size_iff path player ranked members sorted leads nodup
  refine ⟨_, split_point_eq path player members nodup nonempty ranked sorted leads, ?_⟩
  cases found : (List.range' 1 (members.length - 1)).find? (path.groupEarns player ranked sorted) with
  | none =>
      rw [List.find?_range'_eq_none] at found
      have nothing (group : Finset Nat) (isDue : path.Due player members ranked group) : False := by
        obtain ⟨positive, inside, earns⟩ := (due group.card).mp ⟨group, isDue, rfl⟩
        have fails := found group.card positive (by omega)
        rw [earns] at fails
        cases fails
      refine ⟨⟨nofun, fun ⟨group, isDue⟩ => (nothing group isDue).elim⟩, nofun, fun _ group some proper => ?_⟩
      exact not_le.mp fun earned => nothing group ⟨some, proper, earned⟩
  | some count =>
      obtain ⟨earns, inside, earlier⟩ := List.find?_range'_eq_some.mp found
      rw [List.mem_range'_1] at inside
      have size : ((sorted.map Prod.snd).take count).length = count := by
        rw [List.length_take, leads.names.length_eq]
        omega
      have here := (due count).mpr ⟨inside.1, by omega, earns⟩
      refine ⟨⟨fun _ => here.imp fun _ => And.left, fun _ => rfl⟩, ?_, nofun⟩
      rintro top ⟨⟩
      refine ⟨⟨size.symm ▸ here, ?_⟩, ?_, ?_, ?_⟩
      · rintro smaller other
        obtain ⟨positive, -, reached⟩ := (due smaller).mp other
        rw [size]
        by_contra shorter
        have fails := earlier smaller positive (not_le.mp shorter)
        rw [reached] at fails
        cases fails
      · exact (leads.names.nodup_iff.mpr nodup).sublist (List.take_sublist count _)
      · exact fun first leading => leads.names.mem_iff.mp (List.mem_of_mem_take leading)
      · exact fun first leading other => Exact.leading_precede path player members sorted leads count first other leading

-- One strategy of three holds more than the first rank weighs, which is four sevenths.
theorem split_point_is_optimal_favourite :
    ∃ path : Path ℝ, path.profile.probabilities = [1 / 8, 3 / 4, 1 / 8, 1 / 2, 1 / 2] ∧ path.lambda = 1 / 2 ∧
      path.splitPoint? 0 [0, 1, 2] 0 = .ok (some [1]) := by
  let path : Path ℝ :=
    { Crossing.start (Crossing.profile 10 (1 / 8) (3 / 4) (1 / 8) (1 / 2) (1 / 2)) with lambda := 1 / 2 }
  have three : path.table.strategyCount 0 = 3 := rfl
  obtain ⟨point, run, finds, best, -⟩ := split_point_is_optimal path rfl 0 0 [0, 1, 2] (by decide) (by decide) (by decide)
  have due : path.Due 0 [0, 1, 2] 0 {1} := by
    refine ⟨Finset.singleton_nonempty 1, by decide, ?_⟩
    have lambda : path.lambda = 1 / 2 := rfl
    have share : path.profile.share 0 1 = 3 / 4 := rfl
    rw [rankShare, groupMass, Finset.sum_singleton, Finset.card_singleton, three, lambda, share]
    norm_num [Finset.sum_range_succ]
  obtain ⟨top, found⟩ := Option.isSome_iff_exists.mp (finds.mpr ⟨{1}, due⟩)
  obtain ⟨⟨⟨group, isDue, size⟩, least⟩, -, within, precedes⟩ := best top found
  have shortest : top.length ≤ 1 := least ⟨{1}, due, rfl⟩
  have some : 0 < top.length := size ▸ isDue.nonempty.card_pos
  obtain ⟨first, rfl⟩ := List.length_eq_one_iff.mp (Nat.le_antisymm shortest some)
  have ahead : first ≠ 1 → path.Precedes 0 first 1 := fun different =>
    precedes first List.mem_cons_self 1 (by decide) fun listed => different (List.mem_singleton.mp listed).symm
  have favourite : first = 1 := by
    by_contra different
    have one : path.profile.share 0 1 = 3 / 4 := rfl
    have below : path.profile.share 0 first = 1 / 8 := by
      have listed := within first List.mem_cons_self
      simp only [List.mem_cons, List.not_mem_nil, or_false, different, false_or] at listed
      rcases listed with rfl | rfl
      · rfl
      · rfl
    have less := ahead different
    rw [Precedes, one, below] at less
    norm_num at less
  exact ⟨path, rfl, rfl, by rw [run, found, favourite]⟩

end Path

end NormalForm
