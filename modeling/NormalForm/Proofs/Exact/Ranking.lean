import NormalForm.Proofs.Exact.Leaders

/-!
Rankings by payoff in exact arithmetic. Only neighbours in the order of the values are compared, but two values that
are further apart in this order differ by more than the neighbours between them, so that a ranking is found just when
no two values at all are close. The tie that is reported otherwise is the highest one.
-/

set_option autoImplicit false

namespace NormalForm.Ranking

-- The strategies by their values, best first; of equal values the lower number goes first.
structure BestFirst (values : List ℝ) (order : List Nat) : Prop where
  everyone : order.Perm (List.range values.length)
  descends : order.Pairwise fun a b =>
    values.getD b 0 < values.getD a 0 ∨ values.getD b 0 = values.getD a 0 ∧ a < b

-- Strategies with their values.
def valued (values : List ℝ) (order : List Nat) : List (ℝ × Nat) :=
  order.map fun strategy => (values.getD strategy 0, strategy)

-- The first strategy is worth more than the second, by more than the tolerance.
def Clears (values : List ℝ) (tolerance : ℝ) (a b : Nat) : Prop :=
  tolerance < values.getD a 0 - values.getD b 0

-- No two strategies have values as close as the tolerance.
def Apart (values : List ℝ) (tolerance : ℝ) : Prop :=
  ∀ a b, a < values.length → b < values.length → a ≠ b → tolerance < |values.getD a 0 - values.getD b 0|

variable (values : List ℝ) (tolerance : ℝ)

/-! The order of the strategies. -/

theorem best_first_unique (first second : List Nat) (left : BestFirst values first) (right : BestFirst values second) :
    first = second := by
  apply (left.everyone.trans right.everyone.symm).eq_of_pairwise _ left.descends right.descends
  rintro a b - - (above | ⟨level, before⟩) (below | ⟨same, after⟩)
  · exact absurd below (lt_asymm above)
  · exact absurd above (same.not_gt)
  · exact absurd below (level.not_gt)
  · exact absurd before (Nat.lt_asymm after)

-- The sorted pairs are the strategies in this order, each with its value.
theorem descending_best_first :
    ∃ order, BestFirst values order ∧ descending values = valued values order := by
  have perm := descending_perm values
  have named (pair : ℝ × Nat) (listed : pair ∈ descending values) : (values.getD pair.2 0, pair.2) = pair := by
    rw [descending, List.mem_mergeSort, List.mem_zipIdx_iff_getElem?] at listed
    rw [List.getD_eq_getElem?_getD, listed, Option.getD_some]
  refine ⟨(descending values).map Prod.snd, ⟨perm, ?_⟩, ?_⟩
  · have distinct := List.pairwise_map.mp (perm.nodup_iff.mpr List.nodup_range)
    refine List.pairwise_map.mpr (((sorted_by_rank values.zipIdx).and distinct).imp_of_mem ?_)
    rintro a b left right ⟨before, different⟩
    have first : values.getD a.2 0 = a.1 := congrArg Prod.fst (named a left)
    have second : values.getD b.2 0 = b.1 := congrArg Prod.fst (named b right)
    rw [first, second]
    rcases (ranks_before_cases a b).mp before with above | ⟨level, earlier⟩
    · exact .inl (compare_lt_iff_lt.mp above)
    · exact .inr ⟨compare_eq_iff_eq.mp level, Nat.lt_of_le_of_ne earlier different⟩
  · rw [valued, List.map_map]
    exact ((List.map_congr_left named).trans (List.map_id _)).symm

/-! The first neighbours that tie. -/

theorem first_tie_close (a b : Nat) (rest : List Nat) (close : ¬ Clears values tolerance a b) :
    firstTie? tolerance (valued values (a :: b :: rest)) = some (a, b) :=
  if_pos (decide_eq_true (not_lt.mp close))

theorem first_tie_clear (a b : Nat) (rest : List Nat) (clear : Clears values tolerance a b) :
    firstTie? tolerance (valued values (a :: b :: rest)) = firstTie? tolerance (valued values (b :: rest)) :=
  if_neg (mt of_decide_eq_true (not_le.mpr clear))

theorem first_tie_none (order : List Nat) :
    firstTie? tolerance (valued values order) = none ↔ order.IsChain (Clears values tolerance) := by
  induction order with
  | nil => simp [valued, firstTie?]
  | cons a rest ih =>
      cases rest with
      | nil => simp [valued, firstTie?]
      | cons b rest =>
          rw [List.isChain_cons_cons, ← ih]
          by_cases clear : Clears values tolerance a b
          · simp [first_tie_clear values tolerance a b rest clear, clear]
          · simp [first_tie_close values tolerance a b rest clear, clear]

-- The induction goes down the order as far as the neighbours clear each other.
theorem first_tie_some (order : List Nat) (upper lower : Nat)
    (tie : firstTie? tolerance (valued values order) = some (upper, lower)) :
    ∃ above below, order = above ++ upper :: lower :: below ∧ ¬ Clears values tolerance upper lower ∧
      (above ++ [upper]).IsChain (Clears values tolerance) := by
  induction order with
  | nil => cases tie
  | cons a rest ih =>
      cases rest with
      | nil => cases tie
      | cons b rest =>
          by_cases clear : Clears values tolerance a b
          · rw [first_tie_clear values tolerance a b rest clear] at tie
            obtain ⟨above, below, parts, near, chain⟩ := ih tie
            refine ⟨a :: above, below, by rw [parts, List.cons_append], near, ?_⟩
            cases above with
            | nil =>
                cases parts
                exact List.isChain_cons_cons.mpr ⟨clear, chain⟩
            | cons first above =>
                cases parts
                exact List.isChain_cons_cons.mpr ⟨clear, chain⟩
          · rw [first_tie_close values tolerance a b rest clear] at tie
            cases tie
            exact ⟨[], rest, rfl, clear, List.isChain_singleton _⟩

/-! Neighbours and all the others. -/

variable {values tolerance}

theorem clears_above {a b : Nat} (nonneg : 0 ≤ tolerance) (clear : Clears values tolerance a b) :
    values.getD b 0 < values.getD a 0 :=
  sub_pos.mp (nonneg.trans_lt clear)

-- The difference of two values is the sum of those of the neighbours between them.
theorem chain_clears {order : List Nat} (nonneg : 0 ≤ tolerance) (chain : order.IsChain (Clears values tolerance)) :
    order.Pairwise (Clears values tolerance) := by
  have transitive : Trans (Clears values tolerance) (Clears values tolerance) (Clears values tolerance) :=
    ⟨fun first second => by rw [Clears] at *; linarith⟩
  exact List.isChain_iff_pairwise.mp chain

theorem apart_iff_chain {order : List Nat} (best : BestFirst values order) (nonneg : 0 ≤ tolerance) :
    Apart values tolerance ↔ order.IsChain (Clears values tolerance) := by
  have member (strategy : Nat) : strategy ∈ order ↔ strategy < values.length :=
    best.everyone.mem_iff.trans List.mem_range
  constructor
  · intro apart
    have distinct : order.Pairwise (· ≠ ·) := best.everyone.nodup_iff.mpr List.nodup_range
    apply List.Pairwise.isChain
    apply (best.descends.and distinct).imp_of_mem
    rintro a b left right ⟨falls, different⟩
    have gap := apart a b ((member a).mp left) ((member b).mp right) different
    have level : values.getD b 0 ≤ values.getD a 0 := falls.elim le_of_lt fun same => same.1.le
    rwa [abs_of_nonneg (sub_nonneg.mpr level)] at gap
  · intro chain a b left right different
    have symmetric : Std.Symm fun a b => tolerance < |values.getD a 0 - values.getD b 0| :=
      ⟨fun a b gap => by rwa [abs_sub_comm]⟩
    have pairs := (chain_clears nonneg chain).imp fun clear => lt_of_lt_of_le clear (le_abs_self _)
    exact pairs.forall ((member a).mpr left) ((member b).mpr right) different

-- Of the two strategies that tie the one above need not have the lower number.
theorem tie_in_order {order : List Nat} (best : BestFirst values order) (upper lower : Nat)
    (tie : firstTie? tolerance (valued values order) = some (upper, lower)) :
    min upper lower < max upper lower ∧ max upper lower < values.length ∧
      |values.getD (min upper lower) 0 - values.getD (max upper lower) 0| ≤ tolerance ∧
      ∃ above below, order = above ++ upper :: lower :: below ∧ (above ++ [upper]).IsChain (Clears values tolerance) := by
  obtain ⟨above, below, rfl, near, chain⟩ := first_tie_some values tolerance order upper lower tie
  have inside (strategy : Nat) (listed : strategy ∈ above ++ upper :: lower :: below) : strategy < values.length :=
    List.mem_range.mp (best.everyone.mem_iff.mp listed)
  have falls := (List.pairwise_cons.mp (List.pairwise_append.mp best.descends).2.1).1 lower List.mem_cons_self
  have distinct := best.everyone.nodup_iff.mpr List.nodup_range
  have different := (List.pairwise_cons.mp (List.pairwise_append.mp distinct).2.1).1 lower List.mem_cons_self
  have level : values.getD lower 0 ≤ values.getD upper 0 := falls.elim le_of_lt fun same => same.1.le
  have gap : |values.getD upper 0 - values.getD lower 0| ≤ tolerance := by
    rw [abs_of_nonneg (sub_nonneg.mpr level)]
    exact not_lt.mp near
  refine ⟨min_lt_max.mpr different, max_lt (inside upper (by simp)) (inside lower (by simp)), ?_, above, below, rfl, chain⟩
  rcases Nat.lt_or_gt_of_ne different with before | after
  · rwa [min_eq_left before.le, max_eq_right before.le]
  · rwa [min_eq_right after.le, max_eq_left after.le, abs_sub_comm]

-- The order is the only one of its kind, so that what is said of it is said of the values.
theorem by_payoff_ranks_or_ties (values : List ℝ) (tolerance : ℝ) (nonneg : 0 ≤ tolerance) :
    ∃ order, BestFirst values order ∧ (∀ other, BestFirst values other → other = order) ∧
      ((∃ ranking, byPayoff values tolerance = .ok (.ok ranking)) ↔ Apart values tolerance) ∧
      (Apart values tolerance →
        byPayoff values tolerance = .ok (.ok ⟨order.map fun strategy => [strategy]⟩) ∧
        order.Pairwise (fun a b => values.getD b 0 < values.getD a 0) ∧ order.IsChain (Clears values tolerance)) ∧
      (¬ Apart values tolerance → ∃ first second, byPayoff values tolerance = .ok (.error (first, second)) ∧
        first < second ∧ second < values.length ∧ |values.getD first 0 - values.getD second 0| ≤ tolerance ∧
        ∃ above upper lower below, order = above ++ upper :: lower :: below ∧ first = min upper lower ∧
          second = max upper lower ∧ (above ++ [upper]).IsChain (Clears values tolerance)) := by
  obtain ⟨order, best, sorted⟩ := descending_best_first values
  have apart := apart_iff_chain best nonneg
  have ranked (far : Apart values tolerance) :
      byPayoff values tolerance = .ok (.ok ⟨order.map fun strategy => [strategy]⟩) := by
    have untied := (first_tie_none values tolerance order).mpr (apart.mp far)
    have names : (descending values).map Prod.snd = order := by
      rw [sorted, valued, List.map_map]
      exact List.map_id order
    rw [by_payoff_untied values tolerance (sorted ▸ untied), names]
  have tied (close : ¬ Apart values tolerance) : ∃ upper lower,
      firstTie? tolerance (valued values order) = some (upper, lower) := by
    rw [apart, ← first_tie_none] at close
    obtain ⟨⟨upper, lower⟩, tie⟩ := Option.ne_none_iff_exists'.mp close
    exact ⟨upper, lower, tie⟩
  have alone (other : List Nat) (also : BestFirst values other) : other = order :=
    best_first_unique values other order also best
  refine ⟨order, best, alone, ?_, ?_, ?_⟩
  · constructor
    · rintro ⟨ranking, run⟩
      by_contra close
      obtain ⟨upper, lower, tie⟩ := tied close
      cases (by_payoff_tied values tolerance upper lower (sorted ▸ tie)).symm.trans run
    · intro far
      exact ⟨_, ranked far⟩
  · intro far
    have chain := apart.mp far
    exact ⟨ranked far, (chain_clears nonneg chain).imp (clears_above nonneg), chain⟩
  · intro close
    obtain ⟨upper, lower, tie⟩ := tied close
    obtain ⟨different, inside, gap, above, below, parts, chain⟩ := tie_in_order best upper lower tie
    exact ⟨_, _, by_payoff_tied values tolerance upper lower (sorted ▸ tie), different, inside, gap, above, upper, lower,
      below, parts, rfl, rfl, chain⟩

-- The two strategies that tie are no neighbours by their numbers.
theorem by_payoff_ranks_or_ties_level :
    (0 : ℝ) ≤ 1 / 10 ∧ BestFirst [2, 1, 2] [0, 2, 1] ∧ byPayoff [2, 1, 2] (1 / 10 : ℝ) = .ok (.error (0, 2)) := by
  have nonneg : (0 : ℝ) ≤ 1 / 10 := by norm_num
  obtain ⟨order, -, -, -, -, ties⟩ := by_payoff_ranks_or_ties [2, 1, 2] (1 / 10) nonneg
  have shown : BestFirst [2, 1, 2] [0, 2, 1] := ⟨by decide, by norm_num⟩
  have close : ¬ Apart [2, 1, 2] (1 / 10) := by
    intro apart
    have gap := apart 0 2 (by decide) (by decide) (by decide)
    norm_num at gap
  obtain ⟨first, second, run, ascending, inside, gap, -⟩ := ties close
  have places : first = 0 ∧ second = 1 ∨ first = 0 ∧ second = 2 ∨ first = 1 ∧ second = 2 := by
    simp only [List.length_cons, List.length_nil] at inside
    omega
  rcases places with ⟨rfl, rfl⟩ | ⟨rfl, rfl⟩ | ⟨rfl, rfl⟩
  · norm_num at gap
  · exact ⟨nonneg, shown, run⟩
  · norm_num at gap

end NormalForm.Ranking
