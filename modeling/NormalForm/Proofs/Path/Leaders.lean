import NormalForm.Proofs.Path.Safety
import NormalForm.Proofs.Ranking.Sorting

/-!
The leaders of a class: its members in order of probability, cut at the first place where they have gathered
the weight of their ranks. The leaders among the leaders are none, since the same places are tried again up to
the last one.
-/

set_option autoImplicit false

namespace NormalForm.Path

variable {α : Type}

/-! The members by probability. -/

def Weighs (path : Path α) (player : Nat) (pair : α × Nat) : Prop :=
  path.profile.probability player pair.2 = .ok pair.1

theorem weighs_unique (path : Path α) (player : Nat) (a b : α × Nat) (left : path.Weighs player a)
    (right : path.Weighs player b) (same : a.2 = b.2) : a = b := by
  rw [Weighs, same] at left
  exact Prod.ext (Except.ok.inj (left.symm.trans right)) same

theorem weighed_members (path : Path α) (player : Nat) (members : List Nat) (weighed : List (α × Nat))
    (run : (members.mapM fun strategy => do
      let probability ← path.profile.probability player strategy
      Except.ok (probability, strategy)) = .ok weighed) :
    (∀ pair ∈ weighed, path.Weighs player pair) ∧ weighed.map Prod.snd = members := by
  have each := map_m_each _ _ _ run
  clear run
  induction each with
  | nil => exact ⟨fun pair listed => absurd listed List.not_mem_nil, rfl⟩
  | cons here _ ih =>
      obtain ⟨others, names⟩ := ih
      obtain ⟨probability, read, same⟩ := bind_eq_ok.mp here
      cases same
      exact ⟨List.forall_mem_cons.mpr ⟨read, others⟩, by rw [List.map_cons, names]⟩

variable [Scalar α]

-- The order of the members, told apart from the way it is computed.
structure ByProbability (path : Path α) (player : Nat) (members : List Nat) (sorted : List (α × Nat)) : Prop where
  weighs : ∀ pair ∈ sorted, path.Weighs player pair
  names : (sorted.map Prod.snd).Perm members
  ordered : sorted.Pairwise fun a b => Ranking.ranksBefore a b = true

theorem by_probability_take (path : Path α) (player : Nat) (members top : List Nat) (sorted : List (α × Nat))
    (leads : path.ByProbability player members sorted) (count : Nat)
    (same : ((sorted.map Prod.snd).take count).Perm top) : path.ByProbability player top (sorted.take count) := by
  refine ⟨fun pair listed => leads.weighs pair (List.mem_of_mem_take listed), ?_, leads.ordered.sublist
    (List.take_sublist count sorted)⟩
  rwa [List.map_take]

variable [Std.TransCmp (Arithmetic.order (α := α))]

theorem by_probability_spec (path : Path α) (player : Nat) (members : List Nat) (sorted : List (α × Nat))
    (run : path.byProbability player members = .ok sorted) : path.ByProbability player members sorted := by
  obtain ⟨weighed, read, run⟩ := bind_eq_ok.mp run
  cases run
  obtain ⟨weighs, names⟩ := weighed_members path player members weighed read
  have perm := List.mergeSort_perm weighed Ranking.ranksBefore
  exact ⟨fun pair listed => weighs pair (perm.mem_iff.mp listed), names ▸ perm.map Prod.snd,
    Ranking.sorted_by_rank weighed⟩

-- Pairs of different strategies are never level, so that there is one order only.
theorem by_probability_unique (path : Path α) (player : Nat) (members : List Nat) (nodup : members.Nodup)
    (a b : List (α × Nat)) (left : path.ByProbability player members a) (right : path.ByProbability player members b) :
    a = b := by
  have distinct (pairs : List (α × Nat)) (ordered : path.ByProbability player members pairs) : pairs.Nodup :=
    (ordered.names.nodup_iff.mpr nodup).of_map
  have within (x y : List (α × Nat)) (first : path.ByProbability player members x)
      (second : path.ByProbability player members y) (pair : α × Nat) (listed : pair ∈ x) : pair ∈ y := by
    have named := second.names.mem_iff.mpr (first.names.mem_iff.mp (List.mem_map_of_mem listed))
    obtain ⟨other, here, same⟩ := List.mem_map.mp named
    exact path.weighs_unique player other pair (second.weighs other here) (first.weighs pair listed) same ▸ here
  have perm : a.Perm b := (List.perm_ext_iff_of_nodup (distinct a left) (distinct b right)).mpr fun pair =>
    ⟨within a b left right pair, within b a right left pair⟩
  refine perm.eq_of_pairwise (fun x y inLeft inRight above below => ?_) left.ordered right.ordered
  exact path.weighs_unique player x y (left.weighs x inLeft) (right.weighs y inRight)
    (Ranking.ranks_before_antisymm x y above below)

theorem by_probability_eq (path : Path α) (player : Nat) (members : List Nat) (nodup : members.Nodup)
    (sorted : List (α × Nat)) (leads : path.ByProbability player members sorted) :
    path.byProbability player members = .ok sorted := by
  obtain ⟨weighed, read, -⟩ := map_m_succeeds members
    (fun strategy => do
      let probability ← path.profile.probability player strategy
      .ok (probability, strategy))
    (fun _ _ => True) fun strategy member => by
      obtain ⟨pair, listed, rfl⟩ := List.mem_map.mp (leads.names.mem_iff.mpr member)
      have weighs : path.profile.probability player pair.2 = .ok pair.1 := leads.weighs pair listed
      exact ⟨(pair.1, pair.2), by rw [weighs, ok_bind], trivial⟩
  have run : path.byProbability player members = .ok (weighed.mergeSort Ranking.ranksBefore) := by
    rw [byProbability, read, ok_bind]
  rw [run, by_probability_unique path player members nodup _ sorted (by_probability_spec path player members _ run) leads]

omit [Std.TransCmp (Arithmetic.order (α := α))]

/-! The first leading group that has earned its ranks. -/

-- Whether the first `count` have, where `target` and `mass` are what those before them have to reach and have.
def hasEarned (lambda weights : α) (rank : Nat) (target mass : α) (sorted : List (α × Nat)) (count : Nat) : Bool :=
  Arithmetic.le ((List.range' rank count).foldl (fun due r => due + Arithmetic.power lambda r / weights) target)
    ((sorted.take count).foldl (fun held pair => held + pair.1) mass)

theorem leaders_from_eq (lambda weights : α) (rank : Nat) (target mass : α) (taken : List Nat)
    (sorted : List (α × Nat)) : leadersFrom lambda weights rank target mass taken sorted =
      ((List.range' 1 (sorted.length - 1)).find? (hasEarned lambda weights rank target mass sorted)).map
        fun count => taken ++ (sorted.map Prod.snd).take count := by
  fun_induction leadersFrom lambda weights rank target mass taken sorted with
  | case1 rank target mass taken probability strategy next rest target' mass' taken' reached =>
      have first : hasEarned lambda weights rank target mass ((probability, strategy) :: next :: rest) 1 = true := reached
      have places : List.range' 1 (((probability, strategy) :: next :: rest).length - 1) =
          1 :: List.range' 2 rest.length := rfl
      rw [places, List.find?_cons_of_pos first]
      rfl
  | case2 rank target mass taken probability strategy next rest target' mass' taken' reached ih =>
      have first : ¬ hasEarned lambda weights rank target mass ((probability, strategy) :: next :: rest) 1 = true := reached
      have places : List.range' 1 (((probability, strategy) :: next :: rest).length - 1) =
          1 :: (List.range' 1 ((next :: rest).length - 1)).map (· + 1) := by
        rw [← List.range'_succ_left]
        rfl
      have later : hasEarned lambda weights rank target mass ((probability, strategy) :: next :: rest) ∘ (· + 1) =
          hasEarned lambda weights (rank + 1) target' mass' (next :: rest) := rfl
      rw [ih, places, List.find?_cons_of_neg first, List.find?_map, later, Option.map_map]
      refine congrArg (Option.map · _) (funext fun count => ?_)
      rw [Function.comp_apply, List.map_cons (a := (probability, strategy)), List.take_succ_cons, List.append_assoc,
        List.singleton_append]
  | case3 sorted rank target mass taken short =>
      rcases sorted with _ | ⟨first, _ | ⟨second, rest⟩⟩
      · rfl
      · rfl
      · exact absurd rfl (short first.1 first.2 second rest)

-- Whether the `count` most probable members of a class hold what the ranks from `ranked` on weigh.
def groupEarns (path : Path α) (player ranked : Nat) (sorted : List (α × Nat)) (count : Nat) : Bool :=
  hasEarned path.lambda (rankWeights path.lambda (path.table.strategyCount player)) ranked Arithmetic.zero
    Arithmetic.zero sorted count

variable [Std.TransCmp (Arithmetic.order (α := α))]

theorem split_point_eq (path : Path α) (player : Nat) (members : List Nat) (nodup : members.Nodup)
    (nonempty : members ≠ []) (ranked : Nat) (sorted : List (α × Nat))
    (leads : path.ByProbability player members sorted) : path.splitPoint? player members ranked =
      .ok (((List.range' 1 (members.length - 1)).find? (path.groupEarns player ranked sorted)).map
        fun count => (sorted.map Prod.snd).take count) := by
  have size : sorted.length = members.length := by rw [← leads.names.length_eq, List.length_map]
  have some : ¬ sorted.isEmpty = true := by
    rw [List.isEmpty_iff_length_eq_zero, size]
    exact mt List.eq_nil_of_length_eq_zero nonempty
  rw [splitPoint?, by_probability_eq path player members nodup sorted leads, ok_bind, if_neg some]
  dsimp only
  rw [leaders_from_eq, size]
  rfl

theorem split_point_leaders (path : Path α) (player : Nat) (members top : List Nat) (nodup : members.Nodup)
    (ranked : Nat) (due : path.splitPoint? player members ranked = .ok (some top)) :
    ∃ sorted count, path.ByProbability player members sorted ∧ top = (sorted.map Prod.snd).take count ∧
      (List.range' 1 (members.length - 1)).find? (path.groupEarns player ranked sorted) = some count := by
  obtain ⟨sorted, read, run⟩ := bind_eq_ok.mp due
  have leads := by_probability_spec path player members sorted read
  have nonempty : members ≠ [] := by
    rintro rfl
    have empty : sorted = [] := List.map_eq_nil_iff.mp leads.names.eq_nil
    rw [empty, List.isEmpty_nil, if_pos rfl] at run
    cases run
  rw [split_point_eq path player members nodup nonempty ranked sorted leads, Except.ok.injEq,
    Option.map_eq_some_iff] at due
  obtain ⟨count, found, rfl⟩ := due
  exact ⟨sorted, count, leads, rfl, found⟩

theorem leaders_nodup (path : Path α) (player : Nat) (members top : List Nat) (nodup : members.Nodup) (ranked : Nat)
    (due : path.splitPoint? player members ranked = .ok (some top)) : top.Nodup := by
  obtain ⟨sorted, count, leads, rfl, -⟩ := split_point_leaders path player members top nodup ranked due
  exact (leads.names.nodup_iff.mpr nodup).sublist (List.take_sublist count _)

-- A group below the first that has earned its ranks is tried on the same sums in the same order.
theorem leaders_stay_together (path : Path α) (player : Nat) (members top : List Nat) (nodup : members.Nodup)
    (ranked : Nat) (due : path.splitPoint? player members ranked = .ok (some top)) (group : List Nat)
    (same : group.Perm top) : path.splitPoint? player group ranked = .ok none := by
  have distinct : group.Nodup := same.nodup_iff.mpr (leaders_nodup path player members top nodup ranked due)
  obtain ⟨sorted, count, leads, rfl, found⟩ := split_point_leaders path player members top nodup ranked due
  obtain ⟨-, inside, earlier⟩ := List.find?_range'_eq_some.mp found
  rw [List.mem_range'_1] at inside
  have parts := by_probability_take path player members group sorted leads count same.symm
  have size : group.length = count := by
    rw [same.length_eq, List.length_take, leads.names.length_eq]
    omega
  have some : group ≠ [] := by
    rintro rfl
    rw [List.length_nil] at size
    omega
  have none : (List.range' 1 (group.length - 1)).find? (path.groupEarns player ranked (sorted.take count)) = none := by
    rw [List.find?_range'_eq_none]
    intro smaller positive below
    have failed := earlier smaller positive (by omega)
    rwa [groupEarns, hasEarned, List.take_take, Nat.min_eq_left (by omega)]
  rw [split_point_eq path player group distinct some ranked (sorted.take count) parts, none]
  rfl

end NormalForm.Path
