import Mathlib.Algebra.BigOperators.Ring.Finset
import Mathlib.Data.List.Range
import Mathlib.Data.List.Sort
import NormalForm.Proofs.Dimensions.Numbering

/-!
The order of strategy vectors. An index is the sum of what the strategies contribute, so that of two vectors the
later one is decided by the last player in whom they differ. The vectors in which some players are held are listed
in this order, each once.
-/

set_option autoImplicit false

namespace NormalForm.Dimensions

theorem count_eq_prod (dims : Dimensions) : count dims = dims.prod := by
  induction dims with
  | nil => rfl
  | cons d dims ih => rw [count, ih, List.prod_cons]

theorem index_eq_sum (dims : Dimensions) (strategies : List Nat) :
    index dims strategies =
      ∑ player ∈ Finset.range dims.length, dims.contribution player (strategies.getD player 0) := by
  induction dims generalizing strategies with
  | nil => rfl
  | cons d dims ih =>
      have later (player strategy : Nat) :
          contribution (d :: dims) (player + 1) strategy = d * contribution dims player strategy :=
        Nat.mul_left_comm strategy d _
      have first (strategy : Nat) : contribution (d :: dims) 0 strategy = strategy := Nat.mul_one strategy
      rw [List.length_cons, Finset.sum_range_succ']
      cases strategies with
      | nil => simp [index, contribution]
      | cons s rest =>
          simp only [first, later, List.getD_cons_succ, List.getD_cons_zero, ← Finset.mul_sum]
          rw [← ih, index, Nat.add_comm]

-- The last player in whom the vectors differ plays an earlier strategy in the first one.
def Precedes (a b : List Nat) : Prop :=
  ∃ player, a.getD player 0 < b.getD player 0 ∧ ∀ later, player < later → a[later]? = b[later]?

theorem precedes_cons (s t : Nat) (a b : List Nat) :
    Precedes (s :: a) (t :: b) ↔ Precedes a b ∨ a = b ∧ s < t := by
  constructor
  · rintro ⟨player, less, same⟩
    cases player with
    | zero =>
        refine .inr ⟨List.ext_getElem? fun later => ?_, less⟩
        exact same (later + 1) (Nat.succ_pos later)
    | succ player => exact .inl ⟨player, less, fun later after => same (later + 1) (Nat.succ_lt_succ after)⟩
  · rintro (⟨player, less, same⟩ | ⟨rfl, less⟩)
    · refine ⟨player + 1, less, fun later after => ?_⟩
      cases later with
      | zero => cases after
      | succ later => exact same later (Nat.lt_of_succ_lt_succ after)
    · refine ⟨0, less, fun later after => ?_⟩
      cases later with
      | zero => cases after
      | succ later => rfl

-- A digit of base `d` counts only where all the later digits are the same.
theorem digit_lt_iff (d s t i j : Nat) (below : s < d) (otherBelow : t < d) :
    s + d * i < t + d * j ↔ i < j ∨ i = j ∧ s < t := by
  rcases Nat.lt_trichotomy i j with less | rfl | greater
  · have room : d * (i + 1) ≤ d * j := Nat.mul_le_mul_left d less
    rw [Nat.mul_succ] at room
    omega
  · omega
  · have room : d * (j + 1) ≤ d * i := Nat.mul_le_mul_left d greater
    rw [Nat.mul_succ] at room
    omega

theorem index_lt_iff (dims : Dimensions) (a b : List Nat) (left : InRange dims a) (right : InRange dims b) :
    index dims a < index dims b ↔ Precedes a b := by
  induction dims generalizing a b with
  | nil =>
      rw [in_range_nil] at left right
      subst left right
      simp [Precedes]
  | cons d dims ih =>
      obtain ⟨s, a, below, leftRest, rfl⟩ := List.forall₂_cons_right_iff.mp left
      obtain ⟨t, b, otherBelow, rightRest, rfl⟩ := List.forall₂_cons_right_iff.mp right
      have same : index dims a = index dims b ↔ a = b :=
        ⟨index_injective dims a b leftRest rightRest, congrArg (index dims)⟩
      rw [precedes_cons, ← ih a b leftRest rightRest, ← same, index, index]
      exact digit_lt_iff d s t _ _ below otherBelow

/-! The vectors that are listed where some players are held. -/

-- What a player may play who has `d` strategies.
def options (d : Nat) : Option Nat → List Nat
  | some held => [held]
  | none => List.range d

theorem options_ascend (d : Nat) (choice : Option Nat) : (options d choice).Pairwise (· < ·) := by
  cases choice with
  | some held => exact List.pairwise_singleton _ held
  | none => exact List.pairwise_lt_range

theorem mem_options (d strategy : Nat) (choice : Option Nat) (known : ∀ held ∈ choice, held < d) :
    strategy ∈ options d choice ↔ strategy < d ∧ ∀ held ∈ choice, strategy = held := by
  cases choice with
  | some held =>
      have inside := known held rfl
      simp only [options, List.mem_singleton, Option.mem_some_iff, forall_eq']
      exact ⟨fun same => ⟨same ▸ inside, same⟩, And.right⟩
  | none => simp [options]

theorem vectors_cons (d : Nat) (choice : Option Nat) (rest : List (Nat × Option Nat)) :
    vectors ((d, choice) :: rest) =
      (vectors rest).flatMap fun tail => (options d choice).map fun head => head :: tail := by
  cases choice with
  | some held => rfl
  | none => rfl

-- Every player who is held plays the strategy chosen.
def Agrees (choices : List (Option Nat)) (strategies : List Nat) : Prop :=
  List.Forall₂ (fun choice strategy => ∀ held ∈ choice, strategy = held) choices strategies

theorem mem_vectors (dims : Dimensions) (choices : List (Option Nat)) (held : Held dims choices)
    (strategies : List Nat) :
    strategies ∈ vectors (dims.zip choices) ↔ InRange dims strategies ∧ Agrees choices strategies := by
  induction held generalizing strategies with
  | nil => simp [vectors, Agrees]
  | @cons choice d choices dims known _ ih =>
      rw [List.zip_cons_cons, vectors_cons, List.mem_flatMap]
      constructor
      · rintro ⟨tail, listed, place⟩
        obtain ⟨head, chosen, rfl⟩ := List.mem_map.mp place
        obtain ⟨range, agrees⟩ := (ih tail).mp listed
        obtain ⟨below, own⟩ := (mem_options d head choice known).mp chosen
        exact ⟨.cons below range, .cons own agrees⟩
      · rintro ⟨range, agrees⟩
        obtain ⟨head, tail, below, tailRange, rfl⟩ := List.forall₂_cons_right_iff.mp range
        obtain ⟨own, tailAgrees⟩ := List.forall₂_cons.mp agrees
        exact ⟨tail, (ih tail).mpr ⟨tailRange, tailAgrees⟩,
          List.mem_map.mpr ⟨head, (mem_options d head choice known).mpr ⟨below, own⟩, rfl⟩⟩

theorem vectors_ascend (dims : Dimensions) (choices : List (Option Nat)) (held : Held dims choices) :
    (vectors (dims.zip choices)).Pairwise fun a b => index dims a < index dims b := by
  induction held with
  | nil => exact List.pairwise_singleton _ _
  | @cons choice d choices dims known _ ih =>
      rw [List.zip_cons_cons, vectors_cons, List.pairwise_flatMap]
      refine ⟨fun tail _ => List.pairwise_map.mpr ((options_ascend d choice).imp fun less => ?_), ih.imp fun less => ?_⟩
      · exact Nat.add_lt_add_right less _
      · intro first firstListed second secondListed
        obtain ⟨s, own, rfl⟩ := List.mem_map.mp firstListed
        obtain ⟨t, other, rfl⟩ := List.mem_map.mp secondListed
        have below := ((mem_options d s choice known).mp own).1
        have otherBelow := ((mem_options d t choice known).mp other).1
        exact (digit_lt_iff d s t _ _ below otherBelow).mpr (.inl less)

theorem vectors_length (dims : Dimensions) (choices : List (Option Nat)) (sizes : choices.length = dims.length) :
    (vectors (dims.zip choices)).length =
      ∏ player ∈ Finset.range dims.length with choices[player]? = some none, dims.getD player 0 := by
  rw [Finset.prod_filter]
  induction dims generalizing choices with
  | nil => rfl
  | cons d dims ih =>
      obtain ⟨choice, rest, rfl⟩ := List.exists_cons_of_length_eq_add_one sizes
      have own : (options d choice).length = if (some choice : Option (Option Nat)) = some none then d else 1 := by
        cases choice with
        | some held => rfl
        | none => exact List.length_range
      have each (tail : List Nat) : ((options d choice).map fun head => head :: tail).length = (options d choice).length :=
        List.length_map _
      rw [List.zip_cons_cons, vectors_cons, List.length_flatMap, List.length_cons, Finset.prod_range_succ']
      simp only [each, List.map_const', List.sum_replicate_nat, List.getElem?_cons_succ, List.getD_cons_succ]
      rw [ih rest (Nat.succ.inj sizes), own]
      rfl

/-! What pairs of distinct players with strategies choose. -/

theorem fix_one_set (dims : Dimensions) (choices next : List (Option Nat)) (pair : Nat × Nat)
    (run : fixOne dims choices pair = .ok next) :
    pair.1 < dims.length ∧ next = choices.set pair.1 (some pair.2) := by
  obtain ⟨d, found, rest⟩ := bind_eq_ok.mp run
  have known := (entry_eq_ok _ _ _).mp found
  split at rest
  · cases rest
    exact ⟨(List.getElem?_eq_some_iff.mp known).1, rfl⟩
  · cases rest

theorem fix_one_kept (dims : Dimensions) (fixed : List (Nat × Nat)) (before choices : List (Option Nat))
    (run : fixed.foldlM (fixOne dims) before = .ok choices) (player : Nat) (unnamed : player ∉ fixed.map Prod.fst) :
    choices[player]? = before[player]? := by
  induction fixed generalizing before with
  | nil =>
      cases run
      rfl
  | cons pair rest ih =>
      obtain ⟨next, here, later⟩ := bind_eq_ok.mp run
      obtain ⟨-, rfl⟩ := fix_one_set dims before next pair here
      obtain ⟨other, absent⟩ := not_or.mp (mt List.mem_cons.mpr unnamed)
      rw [ih _ later absent, List.getElem?_set_ne (Ne.symm other)]

-- The induction is on the pairs, which change the choices one after the other.
theorem fix_chosen (dims : Dimensions) (fixed : List (Nat × Nat)) (choices : List (Option Nat))
    (run : fix dims fixed = .ok choices) (distinct : (fixed.map Prod.fst).Nodup) :
    ∀ pair ∈ fixed, choices[pair.1]? = some (some pair.2) := by
  suffices general : ∀ before, before.length = dims.length → fixed.foldlM (fixOne dims) before = .ok choices →
      ∀ pair ∈ fixed, choices[pair.1]? = some (some pair.2) from general _ (List.length_map _) run
  clear run
  induction fixed with
  | nil => simp
  | cons pair rest ih =>
      intro before sizes run
      obtain ⟨next, here, later⟩ := bind_eq_ok.mp run
      obtain ⟨inside, rfl⟩ := fix_one_set dims before next pair here
      obtain ⟨unnamed, others⟩ := List.nodup_cons.mp distinct
      have kept := fix_one_kept dims rest _ choices later pair.1 unnamed
      rw [List.getElem?_set_self (sizes.symm ▸ inside)] at kept
      exact List.forall_mem_cons.mpr ⟨kept, ih others _ (List.length_set.trans sizes) later⟩

theorem fix_free (dims : Dimensions) (fixed : List (Nat × Nat)) (choices : List (Option Nat))
    (run : fix dims fixed = .ok choices) (player : Nat) (inside : player < dims.length) :
    choices[player]? = some none ↔ player ∉ fixed.map Prod.fst := by
  suffices general : ∀ before, before.length = dims.length → fixed.foldlM (fixOne dims) before = .ok choices →
      (choices[player]? = some none ↔ before[player]? = some none ∧ player ∉ fixed.map Prod.fst) by
    have empty : (dims.map fun _ => (none : Option Nat))[player]? = some none := by simp [inside]
    rw [general _ (List.length_map _) run, and_iff_right empty]
  clear run
  induction fixed with
  | nil =>
      intro before _ done
      cases done
      simp
  | cons pair rest ih =>
      intro before sizes run
      obtain ⟨next, here, later⟩ := bind_eq_ok.mp run
      obtain ⟨named, rfl⟩ := fix_one_set dims before next pair here
      rw [ih _ (List.length_set.trans sizes) later, List.map_cons, List.mem_cons, not_or, ← and_assoc]
      refine and_congr_left fun _ => ?_
      by_cases own : player = pair.1
      · simp [own, sizes, named]
      · simp [own, Ne.symm own]

theorem agrees_iff (dims : Dimensions) (fixed : List (Nat × Nat)) (choices : List (Option Nat))
    (run : fix dims fixed = .ok choices) (distinct : (fixed.map Prod.fst).Nodup) (strategies : List Nat)
    (sizes : strategies.length = dims.length) :
    Agrees choices strategies ↔ ∀ pair ∈ fixed, strategies[pair.1]? = some pair.2 := by
  have chosen := fix_chosen dims fixed choices run distinct
  have width : choices.length = dims.length := (fix_ok_held dims fixed choices run).length_eq
  constructor
  · intro agrees pair member
    obtain ⟨inside, found⟩ := List.getElem?_eq_some_iff.mp (chosen pair member)
    have same := agrees.get inside (agrees.length_eq ▸ inside)
    rw [List.get_eq_getElem, found] at same
    exact List.getElem?_eq_some_iff.mpr ⟨_, same pair.2 rfl⟩
  · intro plays
    refine List.forall₂_iff_get.mpr ⟨width.trans sizes.symm, fun player inside known held member => ?_⟩
    have found : choices[player]? = some (some held) := List.getElem?_eq_some_iff.mpr ⟨inside, member⟩
    by_cases named : player ∈ fixed.map Prod.fst
    · obtain ⟨pair, listed, rfl⟩ := List.mem_map.mp named
      cases (chosen pair listed).symm.trans found
      exact (List.getElem?_eq_some_iff.mp (plays pair listed)).2
    · cases ((fix_free dims fixed choices run player (width ▸ inside)).mpr named).symm.trans found

theorem unchosen_players (dims : Dimensions) (fixed : List (Nat × Nat)) (choices : List (Option Nat))
    (run : fix dims fixed = .ok choices) :
    ((Finset.range dims.length).filter fun player => choices[player]? = some none) =
      (Finset.range dims.length).filter fun player => player ∉ fixed.map Prod.fst :=
  Finset.filter_congr fun player listed => fix_free dims fixed choices run player (Finset.mem_range.mp listed)

-- Where nobody is held every number below the count is an index.
theorem free_indices (dims : Dimensions) :
    (vectors (dims.zip (dims.map fun _ => none))).map (index dims) = List.range dims.count := by
  have held := held_none dims
  have ascending := List.pairwise_map.mpr (vectors_ascend dims _ held)
  refine ascending.eq_of_mem_iff List.pairwise_lt_range fun place => ?_
  rw [List.mem_map, List.mem_range]
  constructor
  · rintro ⟨strategies, listed, rfl⟩
    exact index_lt_count dims strategies (vectors_in_range dims _ held strategies listed)
  · intro below
    have range := vector_at_in_range dims place below
    refine ⟨vectorAt dims place, (mem_vectors dims _ held _).mpr ⟨range, ?_⟩, index_vector_at dims place below⟩
    exact (agrees_iff dims [] _ rfl List.nodup_nil _ (in_range_length dims _ range)).mpr nofun

end NormalForm.Dimensions
