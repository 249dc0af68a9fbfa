import NormalForm.Binary64.Scalar
import NormalForm.Proofs.Binary64.Packing

/-!
Comparisons of binary64 numbers are those of a linear order, with what is not a number left out.
-/

set_option autoImplicit false

open Float.Model Float.Model.UnpackedFloat

namespace NormalForm.Binary64

-- The place of a number among all: its sign and whether it is infinite, the exponent, the mantissa.
def place : UnpackedFloat → Int ×ₗ Int ×ₗ Int
  | .notANumber => toLex (0, toLex (0, 0))
  | .infinity .negative => toLex (-2, toLex (0, 0))
  | .finite .negative mantissa exponent _ => toLex (-1, toLex (-exponent, -mantissa))
  | .zero _ => toLex (0, toLex (0, 0))
  | .finite .positive mantissa exponent _ => toLex (1, toLex (exponent, mantissa))
  | .infinity .positive => toLex (2, toLex (0, 0))

theorem compare_neg (a b : Int) : compare (-a) (-b) = (compare a b).swap := by
  rcases lt_trichotomy a b with less | same | more
  · rw [compare_lt_iff_lt.mpr less, compare_gt_iff_gt.mpr (neg_lt_neg less)]
    rfl
  · rw [compare_eq_iff_eq.mpr same, compare_eq_iff_eq.mpr (congrArg _ same)]
    rfl
  · rw [compare_gt_iff_gt.mpr more, compare_lt_iff_lt.mpr (neg_lt_neg more)]
    rfl

theorem compare_cast (m n : Nat) : compare (m : Int) (n : Int) = compare m n := by
  rcases lt_trichotomy m n with less | same | more
  · rw [compare_lt_iff_lt.mpr less, compare_lt_iff_lt.mpr (by exact_mod_cast less)]
  · rw [compare_eq_iff_eq.mpr same, compare_eq_iff_eq.mpr (by exact_mod_cast same)]
  · rw [compare_gt_iff_gt.mpr more, compare_gt_iff_gt.mpr (by exact_mod_cast more)]

theorem compare_positive (e f : Int) (m n : Nat) :
    compare (toLex ((1 : Int), toLex (e, (m : Int)))) (toLex ((1 : Int), toLex (f, (n : Int)))) =
      (compare e f).then (compare m n) := by
  rw [← compare_cast]
  rfl

theorem compare_negative (e f : Int) (m n : Nat) :
    compare (toLex ((-1 : Int), toLex (-e, -(m : Int)))) (toLex ((-1 : Int), toLex (-f, -(n : Int)))) =
      ((compare e f).then (compare m n)).swap := by
  rw [← compare_cast, Ordering.swap_then, ← compare_neg, ← compare_neg]
  rfl

theorem compare_unpacked (u v : UnpackedFloat) (number : u ≠ .notANumber) (number' : v ≠ .notANumber) :
    UnpackedFloat.compare u v = some (compare (place u) (place v)) := by
  cases u with
  | notANumber => exact absurd rfl number
  | infinity s =>
      cases s <;> cases v with
      | notANumber => exact absurd rfl number'
      | infinity t => cases t <;> rfl
      | zero t => rfl
      | finite t n f positive' => cases t <;> rfl
  | zero s =>
      cases v with
      | notANumber => exact absurd rfl number'
      | infinity t => cases t <;> rfl
      | zero t => rfl
      | finite t n f positive' => cases t <;> rfl
  | finite s m e positive =>
      cases v with
      | notANumber => exact absurd rfl number'
      | infinity t => cases s <;> cases t <;> rfl
      | zero t => cases s <;> rfl
      | finite t n f positive' =>
          cases s <;> cases t
          · exact congrArg some (compare_negative e f m n).symm
          · rfl
          · rfl
          · exact congrArg some (compare_positive e f m n).symm

/-! Numbers, and what they are compared to. -/

def IsNumber (x : Float) : Prop := parts x ≠ .notANumber

theorem number_of_finite (x : Float) (finite : x.isFinite = true) : IsNumber x := by
  intro missing
  change (parts x).isFinite = true at finite
  rw [missing] at finite
  cases finite

theorem float_lt_eq (x y : Float) : Arithmetic.lt x y = (UnpackedFloat.compare (parts x) (parts y) == some .lt) := by
  change decide ((decide ((UnpackedFloat.compare (parts x) (parts y) == some .lt) = true)) = true) = _
  simp only [Bool.decide_eq_true]

theorem float_le_eq (x y : Float) :
    Arithmetic.le x y = (UnpackedFloat.compare (parts x) (parts y)).any (·.isLE) := by
  change decide ((decide ((UnpackedFloat.compare (parts x) (parts y)).any (·.isLE) = true)) = true) = _
  simp only [Bool.decide_eq_true]

theorem compare_not_a_number (u v : UnpackedFloat) (missing : u = .notANumber ∨ v = .notANumber) :
    UnpackedFloat.compare u v = none := by
  rcases missing with rfl | rfl
  · rfl
  · cases u <;> rfl

-- Whatever is asked of a comparison, it is asked of numbers only.
theorem comparison_iff (x y : Float) (holds : Option Ordering → Bool) (unknown : holds none = false) :
    holds (UnpackedFloat.compare (parts x) (parts y)) = true ↔
      IsNumber x ∧ IsNumber y ∧ holds (some (compare (place (parts x)) (place (parts y)))) = true := by
  by_cases numbers : IsNumber x ∧ IsNumber y
  · rw [compare_unpacked _ _ numbers.1 numbers.2]
    exact ⟨fun known => ⟨numbers.1, numbers.2, known⟩, fun known => known.2.2⟩
  · have missing : parts x = .notANumber ∨ parts y = .notANumber := by
      rwa [IsNumber, IsNumber, ← not_or, not_not] at numbers
    rw [compare_not_a_number _ _ missing, unknown]
    exact ⟨fun known => absurd known Bool.false_ne_true, fun known => absurd ⟨known.1, known.2.1⟩ numbers⟩

theorem float_lt_iff (x y : Float) :
    Arithmetic.lt x y = true ↔ IsNumber x ∧ IsNumber y ∧ place (parts x) < place (parts y) := by
  rw [float_lt_eq, comparison_iff x y (· == some .lt) rfl, beq_iff_eq, Option.some.injEq, compare_lt_iff_lt]

theorem float_le_iff (x y : Float) :
    Arithmetic.le x y = true ↔ IsNumber x ∧ IsNumber y ∧ place (parts x) ≤ place (parts y) := by
  rw [float_le_eq, comparison_iff x y (·.any (·.isLE)) rfl, Option.any_some, Ordering.isLE_iff_ne_gt,
    compare_gt_iff_gt, not_lt]

theorem is_number_iff (x : Float) : Arithmetic.isNumber x = true ↔ IsNumber x := by
  rw [Arithmetic.isNumber, float_le_iff]
  exact ⟨fun both => both.1, fun number => ⟨number, number, le_refl _⟩⟩

-- Between numbers one comparison decides the other.
theorem float_le_of_not_lt (x y : Float) (number : IsNumber x) (number' : IsNumber y)
    (above : Arithmetic.lt y x = false) : Arithmetic.le x y = true := by
  rw [float_le_iff]
  refine ⟨number, number', not_lt.mp fun less => ?_⟩
  rw [(float_lt_iff y x).mpr ⟨number', number, less⟩] at above
  cases above

/-! The linear order of all values. -/

theorem rank_of_bits_injective (a b : Nat) (below : a < 2 ^ 64) (otherBelow : b < 2 ^ 64)
    (same : rankOfBits a = rankOfBits b) : a = b := by
  have sign : signBit = 2 ^ 63 := rfl
  simp only [rankOfBits, sign] at same
  split at same <;> split at same <;> omega

theorem is_nan_of_bits (x : Float) (same : x.toBits.toNat = computedNaN) : x.isNaN = true := by
  have known : x.toBits = 0xFFF8000000000000 := UInt64.toNat_inj.mp same
  rw [← x.ofBits_toBits, known]
  decide

theorem is_nan_of_number (x : Float) (number : IsNumber x) : x.isNaN = false := by
  change (parts x).isNaN = false
  generalize same : parts x = u
  cases u with
  | notANumber => exact absurd same number
  | _ => rfl

-- A number shares its place in the order with nothing else.
theorem eq_of_rank (x y : Float) (number : IsNumber y) (same : rank x = rank y) : x = y := by
  have present := is_nan_of_number y number
  rw [rank, rank, present, if_neg Bool.false_ne_true] at same
  split at same
  · have bits := rank_of_bits_injective _ _ (by decide) y.toBits.toNat_lt same
    rw [is_nan_of_bits y bits.symm] at present
    cases present
  · exact Float.toBits_inj.mp (UInt64.toNat_inj.mp
      (rank_of_bits_injective _ _ x.toBits.toNat_lt y.toBits.toNat_lt same))

-- What is taken from itself leaves a zero if it is finite.
theorem sub_self_zero (x : Float) (finite : x.isFinite = true) : parts (x - x) = .zero .positive := by
  have nothing : UnpackedFloat.sub Format.binary64 (parts x) (parts x) = .zero .positive := by
    change (parts x).isFinite = true at finite
    cases same : parts x with
    | notANumber =>
        rw [same] at finite
        cases finite
    | infinity sign =>
        rw [same] at finite
        cases finite
    | zero sign => cases sign <;> rfl
    | finite sign mantissa exponent positive =>
        simp only [UnpackedFloat.sub, Int.sub_self, UnpackedFloat.normalize]
        rfl
  change held (UnpackedFloat.sub Format.binary64 (parts x) (parts x)) = _
  rw [nothing, held_zero]

/-! The smallest of several numbers. -/

theorem min_below (x y bound : Float) (below : Arithmetic.lt x bound = true ∨ Arithmetic.lt y bound = true) :
    Arithmetic.lt (Arithmetic.min x y) bound = true := by
  rw [Arithmetic.min]
  split
  · rename_i chosen
    rcases below with less | less
    · obtain ⟨number, number', smaller⟩ := (float_lt_iff x bound).mp less
      rw [(is_number_iff x).mpr number, Bool.not_true, Bool.false_or] at chosen
      obtain ⟨number'', -, smaller'⟩ := (float_lt_iff y x).mp chosen
      exact (float_lt_iff y bound).mpr ⟨number'', number', smaller'.trans smaller⟩
    · exact less
  · rename_i kept
    rw [Bool.or_eq_true, not_or, Bool.not_eq_true', Bool.not_eq_false, Bool.not_eq_true] at kept
    rcases below with less | less
    · exact less
    · obtain ⟨number, number', smaller⟩ := (float_lt_iff y bound).mp less
      have present := (is_number_iff x).mp kept.1
      obtain ⟨-, -, notAbove⟩ := (float_le_iff x y).mp (float_le_of_not_lt x y present number kept.2)
      exact (float_lt_iff x bound).mpr ⟨present, number', notAbove.trans_lt smaller⟩

theorem fold_min_below (values : List Float) (first bound : Float)
    (below : Arithmetic.lt first bound = true ∨ ∃ x ∈ values, Arithmetic.lt x bound = true) :
    Arithmetic.lt (values.foldl Arithmetic.min first) bound = true := by
  induction values generalizing first with
  | nil => exact below.resolve_right (by simp)
  | cons x rest ih =>
      apply ih
      rcases below with less | ⟨y, member, less⟩
      · exact .inl (min_below first x bound (.inl less))
      · rcases List.mem_cons.mp member with rfl | later
        · exact .inl (min_below first y bound (.inr less))
        · exact .inr ⟨y, later, less⟩

-- What is not a number hides no number from the smallest one.
theorem smallest_below (values : List Float) (x bound : Float) (member : x ∈ values)
    (less : Arithmetic.lt x bound = true) : Arithmetic.lt (Arithmetic.smallest values) bound = true := by
  cases values with
  | nil => cases member
  | cons first rest =>
      apply fold_min_below
      rcases List.mem_cons.mp member with rfl | later
      · left
        rwa [(is_number_iff x).mpr ((float_lt_iff x bound).mp less).1, if_pos rfl]
      · exact .inr ⟨x, later, less⟩

end NormalForm.Binary64
