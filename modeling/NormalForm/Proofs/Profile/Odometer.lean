import Mathlib.Data.List.Chain
import NormalForm.Proofs.Dimensions.Order

/-!
The odometer shows the vectors in which some players are held, each once and in order of their index. What a turn
does to the strategies is said without the index and without the checks; the vectors as they are listed are then
the turns one after the other.
-/

set_option autoImplicit false

namespace NormalForm

namespace Profile

-- The profile of a vector, whatever its strategies.
def ofVector (dims : Dimensions) (strategies : List Nat) : Profile := ⟨strategies, dims.index strategies⟩

-- The difference is taken of an index that contains it.
theorem move_succeeds (dims : Dimensions) (strategies : List Nat) (player strategy current d : Nat)
    (known : dims[player]? = some d) (below : strategy < d) (named : strategies[player]? = some current)
    (inside : current < d) :
    (ofVector dims strategies).move dims player strategy = .ok (ofVector dims (strategies.set player strategy)) := by
  have listed := (List.getElem?_eq_some_iff.mp known).1
  have moved := dims.index_set strategies player current strategy listed named
  have away := dims.index_set strategies player current 0 listed named
  rw [Nat.zero_mul, Nat.add_zero] at away
  have enough : ¬ (ofVector dims strategies).index < current * dims.stride player :=
    Nat.not_lt.mpr ((Nat.le_add_left _ _).trans (le_of_eq away))
  have difference : dims.index strategies - current * dims.stride player + strategy * dims.stride player =
      dims.index (strategies.set player strategy) := by omega
  have read : entry (ofVector dims strategies).strategies player = .ok current := (entry_eq_ok _ _ _).mpr named
  rw [move, (entry_eq_ok _ _ _).mpr known, ok_bind, if_neg (Nat.not_le.mpr below), read, ok_bind,
    if_neg (Nat.not_le.mpr inside)]
  exact (if_neg enough).trans (congrArg (fun index => Except.ok (Profile.mk _ index)) difference)

end Profile

namespace Odometer

-- The odometer shows these profiles one after the other and then no more.
inductive Yields (dims : Dimensions) : Odometer → List Profile → Prop where
  | ended (odometer : Odometer) (done : odometer.next dims = .ok none) : Yields dims odometer []
  | shown (odometer rest : Odometer) (profile : Profile) (profiles : List Profile)
      (step : odometer.next dims = .ok (some (profile, rest))) (later : Yields dims rest profiles) :
      Yields dims odometer (profile :: profiles)

theorem collect_yields (dims : Dimensions) (odometer : Odometer) (profiles : List Profile)
    (yields : Yields dims odometer profiles) (rounds : Nat) (enough : profiles.length ≤ rounds) (taken : List Profile) :
    odometer.collect dims rounds taken = .ok (taken.reverse ++ profiles) := by
  induction yields generalizing rounds taken with
  | ended odometer done =>
      rw [List.append_nil]
      cases rounds with
      | zero => rfl
      | succ rounds => rw [collect, done, ok_bind]
  | shown odometer rest profile profiles step _ ih =>
      obtain ⟨rounds, rfl⟩ := Nat.exists_eq_add_one_of_ne_zero (Nat.ne_zero_of_lt enough)
      rw [collect, step, ok_bind]
      exact (ih rounds (Nat.le_of_succ_le_succ enough) (profile :: taken)).trans (by simp)

/-! One turn. -/

-- The next vector, and whether the free players are back at their first strategies.
def turn : Dimensions → List Bool → List Nat → Bool × List Nat
  | _ :: dims, true :: held, strategy :: rest => ((turn dims held rest).1, strategy :: (turn dims held rest).2)
  | d :: dims, false :: held, strategy :: rest =>
      if strategy + 1 < d then (false, (strategy + 1) :: rest)
      else ((turn dims held rest).1, 0 :: (turn dims held rest).2)
  | _, _, _ => (true, [])

-- The induction is on the players who may still move; those in `ahead` have been passed.
theorem carry_eq (dims ahead : Dimensions) (held : List Bool) (strategies front : List Nat)
    (valid : dims.InRange strategies) (sizes : held.length = dims.length) (passed : front.length = ahead.length) :
    carry (ahead ++ dims) ahead.length held (.ofVector (ahead ++ dims) (front ++ strategies)) =
      .ok ((turn dims held strategies).1, .ofVector (ahead ++ dims) (front ++ (turn dims held strategies).2)) := by
  induction valid generalizing ahead held front with
  | nil =>
      have none := List.eq_nil_of_length_eq_zero sizes
      subst none
      rfl
  | @cons strategy d rest dims below valid ih =>
      obtain ⟨holds, held, rfl⟩ := List.exists_cons_of_length_eq_add_one sizes
      have later (shown : Nat) := ih (ahead ++ [d]) held (front ++ [shown]) (Nat.succ.inj sizes) (by simp [passed])
      simp only [List.append_assoc, List.singleton_append, List.length_append, List.length_singleton] at later
      cases holds with
      | true => exact later strategy
      | false =>
          have known : (ahead ++ d :: dims)[ahead.length]? = some d := by simp
          have named : (front ++ strategy :: rest)[ahead.length]? = some strategy := by simp [← passed]
          have moves (other : Nat) (inside : other < d) :
              (Profile.ofVector (ahead ++ d :: dims) (front ++ strategy :: rest)).move (ahead ++ d :: dims) ahead.length other =
                .ok (.ofVector (ahead ++ d :: dims) (front ++ other :: rest)) := by
            rw [Profile.move_succeeds _ _ _ other strategy d known inside named below]
            simp [← passed]
          have read : entry (Profile.ofVector (ahead ++ d :: dims) (front ++ strategy :: rest)).strategies ahead.length =
              .ok strategy := (entry_eq_ok _ _ _).mpr named
          rw [carry, (entry_eq_ok _ _ _).mpr known, ok_bind, read, ok_bind, turn]
          by_cases another : strategy + 1 < d
          · rw [if_pos another, if_pos another, moves (strategy + 1) another]
            rfl
          · rw [if_neg another, if_neg another, moves 0 (Nat.zero_lt_of_lt below)]
            exact later 0

theorem next_eq (dims : Dimensions) (held : List Bool) (strategies : List Nat) (valid : dims.InRange strategies)
    (sizes : held.length = dims.length) :
    next dims ⟨.ofVector dims strategies, held, false⟩ = .ok (some (.ofVector dims strategies,
      ⟨.ofVector dims (turn dims held strategies).2, held, (turn dims held strategies).1⟩)) := by
  have turned := carry_eq dims [] held strategies [] valid sizes rfl
  simp only [List.nil_append, List.length_nil] at turned
  rw [next, if_neg Bool.false_ne_true, turned]
  rfl

-- The last vector is the one after which all is back at the start.
theorem yields_of_turns (dims : Dimensions) (held : List Bool) (sizes : held.length = dims.length)
    (first : List Nat) (rest : List (List Nat)) (valid : ∀ strategies ∈ first :: rest, dims.InRange strategies)
    (turns : (first :: rest).IsChain fun a b => turn dims held a = (false, b))
    (back : ∀ last ∈ (first :: rest).getLast?, (turn dims held last).1 = true) :
    Yields dims ⟨.ofVector dims first, held, false⟩ ((first :: rest).map (.ofVector dims)) := by
  induction rest generalizing first with
  | nil =>
      refine .shown _ _ _ _ (next_eq dims held first (valid first List.mem_cons_self) sizes) (.ended _ ?_)
      rw [next, if_pos (back first rfl)]
  | cons second rest ih =>
      obtain ⟨here, later⟩ := List.isChain_cons_cons.mp turns
      refine .shown _ _ _ _ (next_eq dims held first (valid first List.mem_cons_self) sizes) ?_
      rw [here]
      exact ih second (fun strategies listed => valid strategies (List.mem_cons_of_mem first listed)) later
        fun last listed => back last (by simpa using listed)

/-! The vectors as they are listed. -/

def firsts (choices : List (Option Nat)) : List Nat := choices.map fun choice => choice.getD 0

-- The players whose strategies are chosen are held.
def heldBy (choices : List (Option Nat)) : List Bool := choices.map Option.isSome

theorem options_head (d : Nat) (choice : Option Nat) (positive : 0 < d) :
    (Dimensions.options d choice).head? = some (choice.getD 0) := by
  cases choice with
  | some held => rfl
  | none =>
      obtain ⟨rest, rfl⟩ := Nat.exists_eq_add_one_of_ne_zero (Nat.ne_of_gt positive)
      simp [Dimensions.options, List.range_succ_eq_map]

theorem options_turn (d : Nat) (dims : Dimensions) (choice : Option Nat) (held : List Bool) (rest : List Nat) :
    (Dimensions.options d choice).IsChain fun s t =>
      turn (d :: dims) (choice.isSome :: held) (s :: rest) = (false, t :: rest) := by
  cases choice with
  | some strategy => exact List.isChain_singleton strategy
  | none =>
      refine (List.isChain_range _ d).mpr fun s below => ?_
      rw [Option.isSome_none, turn, if_pos (by omega)]

theorem options_last (d : Nat) (dims : Dimensions) (choice : Option Nat) (held : List Bool) (rest : List Nat)
    (last : Nat) (listed : last ∈ (Dimensions.options d choice).getLast?) :
    turn (d :: dims) (choice.isSome :: held) (last :: rest) =
      ((turn dims held rest).1, choice.getD 0 :: (turn dims held rest).2) := by
  cases choice with
  | some strategy =>
      cases listed
      rfl
  | none =>
      have most : ¬ last + 1 < d := by
        simp only [Dimensions.options, List.getLast?_range, Option.mem_def] at listed
        split at listed
        · cases listed
        · cases listed
          omega
      rw [Option.isSome_none, turn, if_neg most]
      rfl

theorem options_nonempty (d : Nat) (choice : Option Nat) (positive : 0 < d) : Dimensions.options d choice ≠ [] := by
  intro empty
  have head := options_head d choice positive
  rw [empty] at head
  cases head

theorem vectors_head (dims : Dimensions) (choices : List (Option Nat)) (held : dims.Held choices)
    (positive : ∀ d ∈ dims, 0 < d) :
    ∃ rest, Dimensions.vectors (dims.zip choices) = firsts choices :: rest := by
  induction held with
  | nil => exact ⟨[], rfl⟩
  | @cons choice d choices dims known _ ih =>
      obtain ⟨own, later⟩ := List.forall_mem_cons.mp positive
      obtain ⟨tails, listed⟩ := ih later
      obtain ⟨heads, options⟩ := List.head?_eq_some_iff.mp (options_head d choice own)
      rw [List.zip_cons_cons, Dimensions.vectors_cons, listed, options]
      exact ⟨_, rfl⟩

-- Between two vectors of the later players the first player goes back from the last option to the first one.
theorem vectors_turn (dims : Dimensions) (choices : List (Option Nat)) (held : dims.Held choices)
    (positive : ∀ d ∈ dims, 0 < d) :
    (Dimensions.vectors (dims.zip choices)).IsChain fun a b => turn dims (heldBy choices) a = (false, b) := by
  induction held with
  | nil => exact List.isChain_singleton _
  | @cons choice d choices dims known _ ih =>
      obtain ⟨own, later⟩ := List.forall_mem_cons.mp positive
      rw [List.zip_cons_cons, Dimensions.vectors_cons, List.flatMap_def]
      refine (List.isChain_flatten ?_).mpr ⟨?_, ?_⟩
      · intro empty
        obtain ⟨tail, -, none⟩ := List.mem_map.mp empty
        exact options_nonempty d choice own (List.map_eq_nil_iff.mp none)
      · intro block listed
        obtain ⟨tail, -, rfl⟩ := List.mem_map.mp listed
        exact (List.isChain_map _).mpr (options_turn d dims choice (heldBy choices) tail)
      · refine (List.isChain_map _).mpr ((ih later).imp fun a b turned last lastListed next nextListed => ?_)
        rw [List.getLast?_map, Option.mem_def, Option.map_eq_some_iff] at lastListed
        rw [List.head?_map, options_head d choice own] at nextListed
        obtain ⟨strategy, option, rfl⟩ := lastListed
        cases nextListed
        exact (options_last d dims choice (heldBy choices) a strategy option).trans (by rw [turned])

theorem vectors_back (dims : Dimensions) (choices : List (Option Nat)) (held : dims.Held choices)
    (positive : ∀ d ∈ dims, 0 < d) :
    ∀ last ∈ (Dimensions.vectors (dims.zip choices)).getLast?, (turn dims (heldBy choices) last).1 = true := by
  induction held with
  | nil =>
      intro last listed
      cases listed
      rfl
  | @cons choice d choices dims known rest ih =>
      obtain ⟨own, later⟩ := List.forall_mem_cons.mp positive
      obtain ⟨tails, listed⟩ := vectors_head dims choices rest later
      obtain ⟨before, final, whole⟩ := (List.eq_nil_or_concat' (Dimensions.vectors (dims.zip choices))).resolve_left
        (listed ▸ List.cons_ne_nil _ tails)
      have option := List.getLast?_eq_some_getLast (options_nonempty d choice own)
      intro last lastListed
      rw [List.zip_cons_cons, Dimensions.vectors_cons, whole, List.flatMap_append, List.flatMap_singleton,
        List.getLast?_append, List.getLast?_map, option, Option.map_some, Option.some_or] at lastListed
      cases lastListed
      rw [heldBy, List.map_cons, options_last d dims choice _ final _ option]
      exact ih later final (by simp [whole])

/-! The start. -/

-- The odometer in front of the first profile in which the choices hold.
def before (dims : Dimensions) (choices : List (Option Nat)) : Odometer :=
  ⟨.ofVector dims (firsts choices), heldBy choices, dims.any fun d => d == 0⟩

theorem firsts_below (dims : Dimensions) (choices : List (Option Nat)) (held : dims.Held choices) (player d : Nat)
    (known : dims[player]? = some d) (positive : 0 < d) : ∃ current, (firsts choices)[player]? = some current ∧ current < d := by
  obtain ⟨inside, rfl⟩ := List.getElem?_eq_some_iff.mp known
  have listed : player < choices.length := held.length_eq.symm ▸ inside
  have below := held.get listed inside
  rw [List.get_eq_getElem, List.get_eq_getElem] at below
  refine ⟨choices[player].getD 0, by rw [firsts, List.getElem?_map, List.getElem?_eq_getElem listed]; rfl, ?_⟩
  cases choice : choices[player] with
  | none => exact positive
  | some strategy => exact below strategy choice

theorem hold_eq (dims : Dimensions) (choices : List (Option Nat)) (held : dims.Held choices) (pair : Nat × Nat) :
    hold dims (before dims choices) pair = (dims.fixOne choices pair).map (before dims) := by
  rw [hold, Dimensions.fixOne]
  cases counted : entry dims pair.1 with
  | error fault => rw [Profile.move, counted]; rfl
  | ok d =>
      rw [ok_bind]
      by_cases below : pair.2 < d
      · have known := (entry_eq_ok _ _ _).mp counted
        obtain ⟨current, named, inside⟩ := firsts_below dims choices held pair.1 d known (Nat.zero_lt_of_lt below)
        have moved : (before dims choices).current.move dims pair.1 pair.2 =
            .ok (.ofVector dims ((firsts choices).set pair.1 pair.2)) :=
          Profile.move_succeeds dims _ pair.1 pair.2 current d known below named inside
        rw [moved, ok_bind, if_pos below]
        simp only [Except.map, before, firsts, heldBy, List.map_set, Option.getD_some, Option.isSome_some]
      · rw [Profile.move, counted, ok_bind, if_pos (Nat.not_lt.mp below), if_neg below]
        rfl

theorem start_eq (dims : Dimensions) (fixed : List (Nat × Nat)) :
    start dims fixed = (dims.fix fixed).map (before dims) := by
  suffices general : ∀ choices, dims.Held choices → fixed.foldlM (hold dims) (before dims choices) =
      (fixed.foldlM dims.fixOne choices).map (before dims) by
    have first : before dims (dims.map fun _ => none) = ⟨.first dims, dims.map fun _ => false, dims.any fun d => d == 0⟩ := by
      simp only [before, firsts, heldBy, List.map_map, Function.comp_def, Option.getD_none, Option.isSome_none,
        Profile.ofVector, Profile.first, dims.index_zeros]
    rw [start, ← first]
    exact general _ dims.held_none
  induction fixed with
  | nil => exact fun choices _ => rfl
  | cons pair rest ih =>
      intro choices held
      rw [List.foldlM_cons, List.foldlM_cons, hold_eq dims choices held pair]
      cases here : dims.fixOne choices pair with
      | error fault => rfl
      | ok next => exact ih next (dims.fix_one_held choices next pair held here)

-- The profiles of a walk have as many indices, each below the number of cells.
theorem vectors_within_count (dims : Dimensions) (choices : List (Option Nat)) (held : dims.Held choices) :
    (Dimensions.vectors (dims.zip choices)).length ≤ dims.count := by
  have ascending := dims.vectors_ascend choices held
  have distinct : ((Dimensions.vectors (dims.zip choices)).map dims.index).Nodup :=
    List.pairwise_map.mpr (ascending.imp Nat.ne_of_lt)
  have within : (Dimensions.vectors (dims.zip choices)).map dims.index ⊆ List.range dims.count := by
    intro index listed
    obtain ⟨strategies, member, rfl⟩ := List.mem_map.mp listed
    exact List.mem_range.mpr (dims.index_lt_count strategies (dims.vectors_in_range choices held strategies member))
  have shorter := (List.subperm_of_subset distinct within).length_le
  rwa [List.length_map, List.length_range] at shorter

theorem before_yields (dims : Dimensions) (choices : List (Option Nat)) (held : dims.Held choices) :
    Yields dims (before dims choices) ((Dimensions.vectors (dims.zip choices)).map (.ofVector dims)) := by
  by_cases positive : ∀ d ∈ dims, 0 < d
  · obtain ⟨rest, listed⟩ := vectors_head dims choices held positive
    have turns := vectors_turn dims choices held positive
    have back := vectors_back dims choices held positive
    have valid := dims.vectors_in_range choices held
    have goes : (dims.any fun d => d == 0) = false :=
      List.any_eq_false.mpr fun d member => by simpa using Nat.ne_of_gt (positive d member)
    rw [listed] at turns back valid ⊢
    rw [before, goes]
    exact yields_of_turns dims (heldBy choices) ((List.length_map _).trans held.length_eq) _ rest valid turns back
  · have nothing : Dimensions.vectors (dims.zip choices) = [] :=
      List.eq_nil_iff_forall_not_mem.mpr fun strategies listed =>
        positive (dims.positive_of_count (Nat.zero_lt_of_lt
          (dims.index_lt_count strategies (dims.vectors_in_range choices held strategies listed))))
    have ends : (dims.any fun d => d == 0) = true := by
      simpa using positive
    rw [nothing, before, ends]
    exact .ended _ rfl

end Odometer

theorem Dimensions.contingencies_eq (dims : Dimensions) (fixed : List (Nat × Nat)) :
    dims.contingencies fixed =
      (dims.fix fixed).map fun choices => (vectors (dims.zip choices)).map (Profile.ofVector dims) := by
  rw [contingencies, Odometer.start_eq]
  cases chosen : dims.fix fixed with
  | error fault => rfl
  | ok choices =>
      have held := dims.fix_ok_held fixed choices chosen
      exact Odometer.collect_yields dims _ _ (Odometer.before_yields dims choices held) dims.count
        ((List.length_map _).trans_le (Odometer.vectors_within_count dims choices held)) []

end NormalForm
