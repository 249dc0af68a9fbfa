import NormalForm.Proofs.Binary64.Signs

/-!
The largest of several binary64 numbers, of which none counts as zero. It is a number and not negative, it is
one of them unless it is that zero, and what is not a number is passed over. It depends on which numbers there
are, and not on their order.
-/

set_option autoImplicit false

namespace NormalForm.Binary64

-- What a largest number can be: the zero that none counts as, or a number above it.
def Gain (x : Float) : Prop := x = Arithmetic.zero ∨ Arithmetic.lt Arithmetic.zero x = true

theorem gain_number (x : Float) (gain : Gain x) : IsNumber x := by
  rcases gain with rfl | above
  · exact zero_is_number
  · exact ((float_lt_iff _ x).mp above).2.1

theorem le_self (x : Float) (number : IsNumber x) : Arithmetic.le x x = true := (is_number_iff x).mpr number

theorem le_of_lt (x y : Float) (less : Arithmetic.lt x y = true) : Arithmetic.le x y = true := by
  obtain ⟨number, number', below⟩ := (float_lt_iff x y).mp less
  exact (float_le_iff x y).mpr ⟨number, number', below.le⟩

theorem le_trans (x y z : Float) (first : Arithmetic.le x y = true) (second : Arithmetic.le y z = true) :
    Arithmetic.le x z = true := by
  obtain ⟨number, -, below⟩ := (float_le_iff x y).mp first
  obtain ⟨-, number', further⟩ := (float_le_iff y z).mp second
  exact (float_le_iff x z).mpr ⟨number, number', below.trans further⟩

theorem max_of_number (x y : Float) (number : IsNumber x) :
    Arithmetic.max x y = if Arithmetic.lt x y then y else x := by
  rw [Arithmetic.max, (is_number_iff x).mpr number, Bool.not_true, Bool.false_or]

theorem max_gain (x y : Float) (gain : Gain x) : Gain (Arithmetic.max x y) ∧
    (Arithmetic.max x y = x ∨ Arithmetic.max x y = y) ∧ Arithmetic.le x (Arithmetic.max x y) = true ∧
    (IsNumber y → Arithmetic.le y (Arithmetic.max x y) = true) := by
  have number := gain_number x gain
  rw [max_of_number x y number]
  cases less : Arithmetic.lt x y with
  | true =>
      rw [if_pos rfl]
      have above : Arithmetic.lt Arithmetic.zero y = true := by
        rcases gain with rfl | before
        · exact less
        · obtain ⟨zero, -, below⟩ := (float_lt_iff _ x).mp before
          obtain ⟨-, number', further⟩ := (float_lt_iff x y).mp less
          exact (float_lt_iff _ y).mpr ⟨zero, number', below.trans further⟩
      exact ⟨.inr above, .inr rfl, le_of_lt x y less, le_self y⟩
  | false =>
      rw [if_neg Bool.false_ne_true]
      exact ⟨gain, .inl rfl, le_self x number, fun number' => float_le_of_not_lt y x number' number less⟩

-- The induction carries the largest of the values so far.
theorem fold_max_gain (values : List Float) (first : Float) (gain : Gain first) :
    Gain (values.foldl Arithmetic.max first) ∧
      (values.foldl Arithmetic.max first = first ∨ values.foldl Arithmetic.max first ∈ values) ∧
      Arithmetic.le first (values.foldl Arithmetic.max first) = true ∧
      ∀ x ∈ values, IsNumber x → Arithmetic.le x (values.foldl Arithmetic.max first) = true := by
  induction values generalizing first with
  | nil => exact ⟨gain, .inl rfl, le_self first (gain_number first gain), List.forall_mem_nil _⟩
  | cons y rest ih =>
      obtain ⟨next, chosen, first_le, y_le⟩ := max_gain first y gain
      obtain ⟨last, found, next_le, all_le⟩ := ih (Arithmetic.max first y) next
      rw [List.foldl_cons]
      refine ⟨last, ?_, le_trans _ _ _ first_le next_le, List.forall_mem_cons.mpr ⟨?_, all_le⟩⟩
      · rcases found with same | later
        · rw [same, List.mem_cons]
          exact chosen.imp_right .inl
        · exact .inr (List.mem_cons_of_mem y later)
      · exact fun number => le_trans _ _ _ (y_le number) next_le

theorem largest_gain (values : List Float) : Gain (Arithmetic.largest values) :=
  (fold_max_gain values _ (.inl rfl)).1

-- Among gains the largest is one of them, if there are any.
theorem largest_of_gains (values : List Float) (gains : ∀ x ∈ values, Gain x) :
    (values ≠ [] → Arithmetic.largest values ∈ values) ∧
      ∀ x ∈ values, Arithmetic.le x (Arithmetic.largest values) = true := by
  obtain ⟨-, found, -, all⟩ := fold_max_gain values Arithmetic.zero (.inl rfl)
  have bound : ∀ x ∈ values, Arithmetic.le x (Arithmetic.largest values) = true := fun x member =>
    all x member (gain_number x (gains x member))
  refine ⟨fun some => ?_, bound⟩
  rcases found with zero | member
  · obtain ⟨x, rest, rfl⟩ := List.exists_cons_of_ne_nil some
    have least := bound x List.mem_cons_self
    rcases gains x List.mem_cons_self with same | above
    · rw [Arithmetic.largest, zero, ← same]
      exact List.mem_cons_self
    · rw [Arithmetic.largest, zero] at least
      obtain ⟨-, -, below⟩ := (float_lt_iff _ x).mp above
      obtain ⟨-, -, notAbove⟩ := (float_le_iff x _).mp least
      exact absurd below (not_lt.mpr notAbove)
  · exact member

-- A zero among gains is the one that none counts as, so that numbers that do not differ are the same.
theorem gain_antisymm (x y : Float) (gain : Gain x) (other : Gain y) (below : Arithmetic.le x y = true)
    (above : Arithmetic.le y x = true) : x = y := by
  have upper (z : Float) (positive : Arithmetic.lt Arithmetic.zero z = true) :
      Upper (parts z) ∧ place (parts (Arithmetic.zero : Float)) < place (parts z) :=
    ⟨(upper_iff z).mp (le_of_lt _ z positive), ((float_lt_iff _ z).mp positive).2.2⟩
  obtain ⟨-, -, notAbove⟩ := (float_le_iff x y).mp below
  obtain ⟨-, -, notBelow⟩ := (float_le_iff y x).mp above
  have same := le_antisymm notAbove notBelow
  rcases gain with rfl | positive
  · rcases other with rfl | positive
    · rfl
    · exact absurd same (upper y positive).2.ne
  · rcases other with rfl | positive'
    · exact absurd same.symm (upper x positive).2.ne
    · obtain ⟨first, some⟩ := upper x positive
      exact parts_injective x y (upper_of_place _ _ first (upper y positive').1 some same)

theorem largest_within (values others : List Float) (known : ∀ x ∈ values, x = Arithmetic.zero ∨ x ∈ others) :
    Arithmetic.le (Arithmetic.largest values) (Arithmetic.largest others) = true := by
  obtain ⟨gain, found, -, -⟩ := fold_max_gain values Arithmetic.zero (.inl rfl)
  obtain ⟨-, -, zero_le, all⟩ := fold_max_gain others Arithmetic.zero (.inl rfl)
  have passed : Arithmetic.largest values = Arithmetic.zero ∨ Arithmetic.largest values ∈ others := by
    rcases found with none | member
    · exact .inl none
    · exact known _ member
  rcases passed with none | listed
  · rw [none]
    exact zero_le
  · exact all _ listed (gain_number _ gain)

-- Zeros aside, two lists of the same numbers have the same largest.
theorem largest_of_same (values others : List Float) (known : ∀ x ∈ values, x = Arithmetic.zero ∨ x ∈ others)
    (also : ∀ x ∈ others, x = Arithmetic.zero ∨ x ∈ values) : Arithmetic.largest values = Arithmetic.largest others :=
  gain_antisymm _ _ (largest_gain values) (largest_gain others) (largest_within values others known)
    (largest_within others values also)

end NormalForm.Binary64
