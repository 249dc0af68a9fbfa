import NormalForm.Profile
import NormalForm.Proofs.Fault.Sequence

/-!
Strategy vectors as mixed-radix numerals: `index` and `vectorAt` are inverse to each other between the
vectors in range and the numbers below `count`. Vectors listed for held players are in range, and
holding players whose strategies exist succeeds.
-/

set_option autoImplicit false

namespace NormalForm.Dimensions

-- One strategy per player, each below the player's count.
def InRange (dims : Dimensions) (strategies : List Nat) : Prop :=
  List.Forall₂ (· < ·) strategies dims

instance (dims : Dimensions) (strategies : List Nat) : Decidable (InRange dims strategies) :=
  inferInstanceAs (Decidable (List.Forall₂ _ _ _))

def vectorAt : Dimensions → Nat → List Nat
  | [], _ => []
  | d :: dims, i => i % d :: vectorAt dims (i / d)

@[simp]
theorem in_range_nil (strategies : List Nat) : InRange [] strategies ↔ strategies = [] :=
  List.forall₂_nil_right_iff

@[simp]
theorem in_range_cons (d s : Nat) (dims : Dimensions) (strategies : List Nat) :
    InRange (d :: dims) (s :: strategies) ↔ s < d ∧ InRange dims strategies :=
  List.forall₂_cons

theorem in_range_length (dims : Dimensions) (strategies : List Nat) (valid : InRange dims strategies) :
    strategies.length = dims.length :=
  List.Forall₂.length_eq valid

theorem index_lt_count (dims : Dimensions) (strategies : List Nat) (valid : InRange dims strategies) :
    index dims strategies < count dims := by
  induction valid with
  | nil => simp [index, count]
  | @cons s d strategies dims below _ ih =>
      have room : d * (index dims strategies + 1) ≤ d * count dims := Nat.mul_le_mul_left d ih
      simp only [index, count, Nat.mul_add, Nat.mul_one] at room ⊢
      omega

theorem vector_at_in_range (dims : Dimensions) (i : Nat) (below : i < count dims) :
    InRange dims (vectorAt dims i) := by
  induction dims generalizing i with
  | nil => simp [vectorAt]
  | cons d dims ih =>
      have positive : 0 < d := by
        rcases Nat.eq_zero_or_pos d with zero | positive
        · simp [zero, count] at below
        · exact positive
      rw [vectorAt, in_range_cons]
      exact ⟨Nat.mod_lt i positive, ih (i / d) (Nat.div_lt_of_lt_mul below)⟩

theorem index_vector_at (dims : Dimensions) (i : Nat) (below : i < count dims) :
    index dims (vectorAt dims i) = i := by
  induction dims generalizing i with
  | nil =>
      simp only [count] at below
      simp only [index]
      omega
  | cons d dims ih =>
      rw [vectorAt, index, ih (i / d) (Nat.div_lt_of_lt_mul below)]
      exact Nat.mod_add_div i d

theorem vector_at_index (dims : Dimensions) (strategies : List Nat) (valid : InRange dims strategies) :
    vectorAt dims (index dims strategies) = strategies := by
  induction valid with
  | nil => rfl
  | @cons s d strategies dims below _ ih =>
      have positive : 0 < d := Nat.zero_lt_of_lt below
      rw [index, vectorAt, Nat.add_mul_mod_self_left, Nat.mod_eq_of_lt below,
        Nat.add_mul_div_left _ _ positive, Nat.div_eq_of_lt below, Nat.zero_add, ih]

theorem positive_of_count (dims : Dimensions) (some : 0 < count dims) : ∀ d ∈ dims, 0 < d := by
  induction dims with
  | nil => nofun
  | cons first dims ih =>
      have here : 0 < first := Nat.pos_of_ne_zero fun zero => by simp [count, zero] at some
      have later : 0 < count dims := Nat.pos_of_ne_zero fun zero => by simp [count, zero] at some
      intro d member
      rcases List.mem_cons.mp member with same | listed
      · exact same ▸ here
      · exact ih later d listed

theorem count_positive (dims : Dimensions) (positive : ∀ d ∈ dims, 0 < d) : 0 < count dims := by
  induction dims with
  | nil => exact Nat.zero_lt_one
  | cons first dims ih =>
      obtain ⟨here, later⟩ := List.forall_mem_cons.mp positive
      exact Nat.mul_pos here (ih later)

theorem le_count (dims : Dimensions) (positive : ∀ d ∈ dims, 0 < d) : ∀ d ∈ dims, d ≤ count dims := by
  induction dims with
  | nil => nofun
  | cons first dims ih =>
      obtain ⟨here, later⟩ := List.forall_mem_cons.mp positive
      intro d member
      rcases List.mem_cons.mp member with rfl | listed
      · exact Nat.le_mul_of_pos_right d (count_positive dims later)
      · exact Nat.le_trans (ih later d listed) (Nat.le_mul_of_pos_left _ here)

-- Nobody but a player has strategies.
theorem player_of_strategy (dims : Dimensions) (player strategy : Nat) (below : strategy < (dims[player]?).getD 0) :
    ∃ d, dims[player]? = some d ∧ strategy < d := by
  cases found : dims[player]? with
  | none => simp [found] at below
  | some d => exact ⟨d, rfl, by simpa [found] using below⟩

theorem index_zeros (dims : Dimensions) : index dims (dims.map fun _ => 0) = 0 := by
  induction dims with
  | nil => rfl
  | cons d dims ih => rw [List.map_cons, index, ih, Nat.mul_zero]

-- The induction is on the players up to the one that moves.
theorem index_set (dims : Dimensions) (strategies : List Nat) (player current strategy : Nat)
    (inside : player < dims.length) (known : strategies[player]? = some current) :
    index dims (strategies.set player strategy) + current * dims.stride player =
      index dims strategies + strategy * dims.stride player := by
  induction dims generalizing strategies player with
  | nil => simp at inside
  | cons d dims ih =>
      cases strategies with
      | nil => cases known
      | cons first rest =>
          cases player with
          | zero =>
              cases known
              simp only [List.set_cons_zero, index, stride, List.take_zero, count]
              omega
          | succ player =>
              have here := congrArg (d * ·) (ih rest player (by simpa using inside) known)
              simp only [Nat.mul_add] at here
              have stride_cons : stride (d :: dims) (player + 1) = d * stride dims player := rfl
              simp only [List.set_cons_succ, index, stride_cons, Nat.mul_left_comm _ d]
              omega

theorem index_injective (dims : Dimensions) (a b : List Nat) (left : InRange dims a)
    (right : InRange dims b) (same : index dims a = index dims b) : a = b := by
  rw [← vector_at_index dims a left, ← vector_at_index dims b right, same]

/-! The reading of a vector: its index, or the fault of the first strategy that does not exist. -/

theorem first_unknown_none (number : Nat) (dims : Dimensions) (strategies : List Nat)
    (sizes : strategies.length = dims.length) :
    firstUnknown? number dims strategies = none ↔ InRange dims strategies := by
  induction dims generalizing number strategies with
  | nil =>
      have empty : strategies = [] := List.eq_nil_of_length_eq_zero sizes
      simp [empty, firstUnknown?]
  | cons d dims ih =>
      cases strategies with
      | nil => simp at sizes
      | cons s tail =>
          have rest := ih (number + 1) tail (by simpa using sizes)
          by_cases below : s < d
          · simp [firstUnknown?, below, rest]
          · simp [firstUnknown?, below]

theorem locate_in_range (dims : Dimensions) (strategies : List Nat) (valid : InRange dims strategies) :
    locate dims strategies = .ok (index dims strategies) := by
  have sizes := in_range_length dims strategies valid
  have known := (first_unknown_none 1 dims strategies sizes).mpr valid
  simp only [locate, if_pos sizes, known]

theorem locate_out_of_range (dims : Dimensions) (strategies : List Nat)
    (invalid : ¬ InRange dims strategies) : ∃ fault, locate dims strategies = .error fault := by
  by_cases sizes : strategies.length = dims.length
  · have unknown := mt (first_unknown_none 1 dims strategies sizes).mp invalid
    obtain ⟨⟨strategy, number⟩, found⟩ := Option.ne_none_iff_exists'.mp unknown
    exact ⟨.unknownStrategyOf strategy number, by simp only [locate, if_pos sizes, found]⟩
  · exact ⟨.profileLength, by simp only [locate, if_neg sizes]⟩

/-! Players held fixed. -/

-- Strategy vectors in order of their index. Each player comes with a strategy count and, when the
-- player is held fixed, the strategy.
def vectors : List (Nat × Option Nat) → List (List Nat)
  | [] => [[]]
  | (d, choice) :: rest =>
      let heads := match choice with
        | some strategy => [strategy]
        | none => List.range d
      (vectors rest).flatMap fun tail => heads.map fun head => head :: tail

-- One strategy fixed; a player fixed twice keeps the later strategy.
def fixOne (dims : Dimensions) (choices : List (Option Nat)) (pair : Nat × Nat) :
    Except Fault (List (Option Nat)) := do
  let count ← entry dims pair.1
  if pair.2 < count then .ok (choices.set pair.1 (some pair.2))
  else .error (.unknownStrategy pair.2)

def fix (dims : Dimensions) (fixed : List (Nat × Nat)) : Except Fault (List (Option Nat)) :=
  fixed.foldlM (fixOne dims) (dims.map fun _ => none)

-- A choice per player: the strategy that the player is held at, if any.
def Held (dims : Dimensions) (choices : List (Option Nat)) : Prop :=
  List.Forall₂ (fun choice d => ∀ strategy ∈ choice, strategy < d) choices dims

theorem held_none (dims : Dimensions) : Held dims (dims.map fun _ => none) := by
  rw [Held]
  rw [List.forall₂_map_left_iff, List.forall₂_same]
  intro d member strategy absent
  cases absent

theorem held_set (dims : Dimensions) (choices : List (Option Nat)) (player strategy d : Nat) (held : Held dims choices)
    (known : dims[player]? = some d) (below : strategy < d) : Held dims (choices.set player (some strategy)) :=
  forall₂_set choices dims held player (some strategy) d known (by simpa using below)

theorem fix_held (dims : Dimensions) (fixed : List (Nat × Nat))
    (known : ∀ pair ∈ fixed, ∃ d, dims[pair.1]? = some d ∧ pair.2 < d) :
    ∃ choices, fix dims fixed = .ok choices ∧ Held dims choices := by
  suffices general : ∀ choices, Held dims choices →
      ∃ result, fixed.foldlM (fixOne dims) choices = .ok result ∧ Held dims result from
    general _ (held_none dims)
  induction fixed with
  | nil => exact fun choices held => ⟨choices, rfl, held⟩
  | cons pair rest ih =>
      intro choices held
      obtain ⟨d, found, below⟩ := known pair List.mem_cons_self
      have here : fixOne dims choices pair = .ok (choices.set pair.1 (some pair.2)) := by
        simp only [fixOne, entry, found]
        exact if_pos below
      rw [List.foldlM_cons, here, ok_bind]
      exact ih (fun other member => known other (List.mem_cons_of_mem pair member)) _
        (held_set dims choices pair.1 pair.2 d held found below)

theorem fix_one_held (dims : Dimensions) (choices next : List (Option Nat)) (pair : Nat × Nat)
    (held : Held dims choices) (run : fixOne dims choices pair = .ok next) : Held dims next := by
  obtain ⟨d, found, rest⟩ := bind_eq_ok.mp run
  split at rest
  · rename_i below
    cases rest
    exact held_set dims choices pair.1 pair.2 d held ((entry_eq_ok _ _ _).mp found) below
  · cases rest

theorem fix_ok_held (dims : Dimensions) (fixed : List (Nat × Nat)) (choices : List (Option Nat))
    (run : fix dims fixed = .ok choices) : Held dims choices := by
  suffices general : ∀ before, Held dims before → fixed.foldlM (fixOne dims) before = .ok choices →
      Held dims choices from
    general _ (held_none dims) run
  clear run
  induction fixed with
  | nil =>
      intro before held done
      cases done
      exact held
  | cons pair rest ih =>
      intro before held run
      obtain ⟨next, here, later⟩ := bind_eq_ok.mp run
      exact ih next (fix_one_held dims before next pair held here) later

theorem vectors_in_range (dims : Dimensions) (choices : List (Option Nat)) (held : Held dims choices)
    (strategies : List Nat) (listed : strategies ∈ vectors (dims.zip choices)) :
    InRange dims strategies := by
  induction held generalizing strategies with
  | nil => simpa [vectors] using listed
  | cons first _ ih =>
      simp only [List.zip_cons_cons, vectors, List.mem_flatMap, List.mem_map] at listed
      obtain ⟨tail, tailListed, head, headListed, rfl⟩ := listed
      refine (in_range_cons _ _ _ _).mpr ⟨?_, ih tail tailListed⟩
      split at headListed
      · rename_i strategy
        rw [List.mem_singleton.mp headListed]
        exact first strategy rfl
      · exact List.mem_range.mp headListed

/-! Strategies of all players, numbered player by player. -/

theorem total_append (first second : Dimensions) : total (first ++ second) = total first + total second := by
  induction first with
  | nil => exact (Nat.zero_add _).symm
  | cons d first ih => exact (congrArg (d + ·) ih).trans (Nat.add_assoc d _ _).symm

theorem total_around (dims : Dimensions) (player d : Nat) (known : dims[player]? = some d) :
    dims.total = dims.offset player + d + total (dims.drop (player + 1)) := by
  obtain ⟨inside, rfl⟩ := List.getElem?_eq_some_iff.mp known
  have parts := total_append (dims.take player) (dims.drop player)
  rw [List.take_append_drop, List.drop_eq_getElem_cons inside] at parts
  exact parts.trans (Nat.add_assoc _ _ _).symm

theorem offset_lt_total (dims : Dimensions) (player strategy d : Nat) (known : dims[player]? = some d)
    (below : strategy < d) : dims.offset player + strategy < dims.total := by
  have whole := total_around dims player d known
  omega

theorem offset_zero (dims : Dimensions) : dims.offset 0 = 0 :=
  rfl

theorem offset_cons (first : Nat) (dims : Dimensions) (player : Nat) :
    offset (first :: dims) (player + 1) = first + offset dims player :=
  rfl

theorem offset_le_offset (dims : Dimensions) (player other d : Nat) (known : dims[player]? = some d)
    (later : player < other) : dims.offset player + d ≤ dims.offset other := by
  induction dims generalizing player other with
  | nil => cases known
  | cons first dims ih =>
      obtain ⟨other, rfl⟩ := Nat.exists_eq_add_one_of_ne_zero (Nat.ne_zero_of_lt later)
      rw [offset_cons]
      cases player with
      | zero =>
          cases known
          rw [offset_zero, Nat.zero_add]
          exact Nat.le_add_right _ _
      | succ player =>
          have rest := ih player other known (Nat.lt_of_succ_lt_succ later)
          rw [offset_cons, Nat.add_assoc]
          exact Nat.add_le_add_left rest first

-- A number below the total is the number of one strategy of one player.
theorem place_unique (dims : Dimensions) (player strategy d other otherStrategy e : Nat)
    (known : dims[player]? = some d) (below : strategy < d) (otherKnown : dims[other]? = some e)
    (otherBelow : otherStrategy < e) :
    dims.offset player + strategy = dims.offset other + otherStrategy ↔ player = other ∧ strategy = otherStrategy := by
  constructor
  · intro same
    rcases Nat.lt_trichotomy player other with before | rfl | after
    · have order := offset_le_offset dims player other d known before
      omega
    · exact ⟨rfl, Nat.add_left_cancel same⟩
    · have order := offset_le_offset dims other player e otherKnown after
      omega
  · rintro ⟨rfl, rfl⟩
    rfl

theorem place_exists (dims : Dimensions) (column : Nat) (below : column < dims.total) :
    ∃ player strategy d, dims[player]? = some d ∧ strategy < d ∧ column = dims.offset player + strategy := by
  induction dims generalizing column with
  | nil => cases below
  | cons first dims ih =>
      have whole : total (first :: dims) = first + total dims := rfl
      by_cases own : column < first
      · exact ⟨0, column, first, rfl, own, (Nat.zero_add column).symm⟩
      · obtain ⟨player, strategy, d, known, inside, place⟩ := ih (column - first) (by omega)
        exact ⟨player + 1, strategy, d, known, inside, by rw [offset_cons]; omega⟩

theorem flatten_at {β : Type} (dims : Dimensions) (parts : List (List β)) (player strategy : Nat) (part : List β)
    (sizes : List.Forall₂ (fun d part => part.length = d) dims parts) (found : parts[player]? = some part)
    (below : strategy < part.length) : parts.flatten[dims.offset player + strategy]? = part[strategy]? := by
  induction sizes generalizing player with
  | nil => cases found
  | @cons d first dims rest size _ ih =>
      cases player with
      | zero =>
          cases found
          rw [offset_zero, Nat.zero_add, List.flatten_cons, List.getElem?_append_left below]
      | succ player =>
          rw [offset_cons, ← size, List.flatten_cons, Nat.add_assoc, List.getElem?_append_right (Nat.le_add_right _ _),
            Nat.add_sub_cancel_left, ih player found]

theorem flatten_length {α β : Type} (size : α → Nat) (items : List α) (parts : List (List β))
    (each : List.Forall₂ (fun item part => part.length = size item) items parts) :
    parts.flatten.length = total (items.map size) := by
  induction each with
  | nil => rfl
  | cons here _ ih =>
      rw [List.flatten_cons, List.length_append, here, ih]
      rfl

/-! Dimensions whose tables can be addressed. -/

theorem product_from_count (product cells : Nat) (dims : Dimensions)
    (fits : dims.productFrom? product = some cells) : cells = product * dims.count := by
  induction dims generalizing product with
  | nil => exact (Option.some.inj fits).symm.trans (Nat.mul_one product).symm
  | cons d dims ih =>
      rw [productFrom?] at fits
      split at fits
      · rw [ih (product * d) fits, count, Nat.mul_assoc]
      · cases fits

theorem allotted_iff (dims : Dimensions) (cells : Nat) : dims.allotted = .ok cells ↔
    (∀ d ∈ dims, Word.addressable d strategyBytes) ∧ dims.product? = some cells ∧ Word.addressable cells cellBytes := by
  have all : (dims.all fun d => Word.addressable d strategyBytes) = true ↔ ∀ d ∈ dims, Word.addressable d strategyBytes :=
    List.all_eq_true
  rw [allotted, ← all]
  by_cases held : (dims.all fun d => Word.addressable d strategyBytes) = true
  · rw [if_pos held]
    cases dims.product? with
    | none => simp
    | some product =>
        by_cases table : Word.addressable product cellBytes = true
        · simp only [table, if_true, held, true_and, Except.ok.injEq, Option.some.injEq]
          exact ⟨fun same => ⟨same, same ▸ table⟩, And.left⟩
        · simp only [table, held, true_and, Option.some.injEq]
          refine iff_of_false (fun same => by cases same) ?_
          rintro ⟨rfl, addressable⟩
          exact table addressable
  · rw [if_neg held]
    exact iff_of_false (fun same => by cases same) fun known => held known.1

theorem count_is_some_iff (dims : Dimensions) : dims.count?.isSome ↔ ∃ cells, dims.allotted = .ok cells := by
  rw [count?, Option.isSome_iff_exists]
  exact exists_congr fun cells => to_option_eq_some dims.allotted cells

theorem count_addressable (dims : Dimensions) (counted : dims.count?.isSome) :
    (∀ d ∈ dims, Word.addressable d strategyBytes) ∧ dims.product? = some dims.count := by
  obtain ⟨cells, made⟩ := (count_is_some_iff dims).mp counted
  obtain ⟨addressable, product, -⟩ := (allotted_iff dims cells).mp made
  obtain rfl := (product_from_count 1 cells dims product).trans (Nat.one_mul _)
  exact ⟨addressable, product⟩

theorem words_of_count (dims : Dimensions) (counted : dims.count?.isSome) : ∀ d ∈ dims, d < Word.size := by
  intro d member
  have bytes : d * 40 < 2 ^ 63 := of_decide_eq_true ((count_addressable dims counted).1 d member)
  rw [Word.size, Nat.pow_eq]
  omega

end NormalForm.Dimensions
