import Mathlib.Data.Rat.Lemmas
import NormalForm.Decimal.Digits

/-!
Decimal numerals denote the numbers that they are written for, with or without zeros around them.
-/

set_option autoImplicit false

namespace NormalForm.Decimal

theorem is_digit_digit_char : ∀ d < 10, isDigit (digitChar d) = true := by decide

theorem digit_value_digit_char : ∀ d < 10, digitValue (digitChar d) = d := by decide

theorem digits_all_digits (n : Nat) : ∀ c ∈ digits n, isDigit c = true := by
  induction n using Nat.strongRecOn with
  | ind n ih =>
      by_cases small : n < 10
      · rw [digits_of_lt small]
        intro c member
        rw [List.mem_singleton.mp member]
        exact is_digit_digit_char n small
      · rw [digits_of_ge (Nat.le_of_not_lt small)]
        intro c member
        rcases List.mem_append.mp member with before | last
        · exact ih (n / 10) (by omega) c before
        · rw [List.mem_singleton.mp last]
          exact is_digit_digit_char (n % 10) (Nat.mod_lt n (by decide))

theorem digits_ne_nil (n : Nat) : digits n ≠ [] := by
  by_cases small : n < 10
  · rw [digits_of_lt small]
    exact List.cons_ne_nil _ _
  · rw [digits_of_ge (Nat.le_of_not_lt small)]
    exact List.append_ne_nil_of_right_ne_nil _ (List.cons_ne_nil _ _)

theorem digits_length (n places : Nat) (positive : 0 < places) (below : n < 10 ^ places) :
    (digits n).length ≤ places := by
  induction places generalizing n with
  | zero => exact absurd positive (Nat.lt_irrefl 0)
  | succ places ih =>
      by_cases small : n < 10
      · rw [digits_of_lt small, List.length_singleton]
        omega
      · have fewer : n / 10 < 10 ^ places := by
          rw [Nat.pow_succ] at below
          omega
        have some : 0 < places := by
          rcases Nat.eq_zero_or_pos places with zero | some
          · rw [zero, Nat.pow_zero] at fewer
            omega
          · exact some
        rw [digits_of_ge (Nat.le_of_not_lt small), List.length_append, List.length_singleton]
        exact Nat.succ_le_succ (ih (n / 10) some fewer)

/-! Values. -/

theorem value_of_from (start : Nat) (text : List Char) :
    text.foldl (fun value c => 10 * value + digitValue c) start = start * 10 ^ text.length + valueOf text := by
  induction text generalizing start with
  | nil => simp [valueOf]
  | cons c rest ih =>
      have first : valueOf (c :: rest) = digitValue c * 10 ^ rest.length + valueOf rest := by
        have read := ih (digitValue c)
        simpa [valueOf] using read
      rw [List.foldl_cons, ih, first, List.length_cons, Nat.pow_succ, Nat.add_mul]
      have shift : start * (10 ^ rest.length * 10) = 10 * start * 10 ^ rest.length := by
        rw [Nat.mul_comm (10 ^ rest.length), ← Nat.mul_assoc, Nat.mul_comm start]
      omega

theorem value_of_append (before after : List Char) :
    valueOf (before ++ after) = valueOf before * 10 ^ after.length + valueOf after := by
  rw [valueOf, List.foldl_append]
  exact value_of_from (valueOf before) after

theorem value_of_digits (n : Nat) : valueOf (digits n) = n := by
  induction n using Nat.strongRecOn with
  | ind n ih =>
      by_cases small : n < 10
      · rw [digits_of_lt small]
        simp [valueOf, digit_value_digit_char n small]
      · have last := digit_value_digit_char (n % 10) (Nat.mod_lt n (by decide))
        rw [digits_of_ge (Nat.le_of_not_lt small), value_of_append, ih (n / 10) (by omega)]
        simp only [valueOf, List.foldl_cons, List.foldl_nil, List.length_singleton, last]
        omega

theorem value_of_zeros (count : Nat) : valueOf (List.replicate count '0') = 0 := by
  induction count with
  | zero => rfl
  | succ count ih =>
      have zero : digitValue '0' = 0 := rfl
      rw [List.replicate_succ, ← List.singleton_append, value_of_append, ih]
      simp [valueOf, zero]

/-! Zeros on the left. -/

theorem padded_length (width n : Nat) (positive : 0 < width) (below : n < 10 ^ width) :
    (padded width n).length = width := by
  have fits := digits_length n width positive below
  simp only [padded, List.length_append, List.length_replicate]
  omega

theorem value_of_padded (width n : Nat) : valueOf (padded width n) = n := by
  rw [padded, value_of_append, value_of_zeros, Nat.zero_mul, Nat.zero_add, value_of_digits]

theorem padded_all_digits (width n : Nat) : ∀ c ∈ padded width n, isDigit c = true := by
  intro c member
  rcases List.mem_append.mp member with zero | digit
  · rw [List.eq_of_mem_replicate zero]
    rfl
  · exact digits_all_digits n c digit

-- The library writes the same numerals.
theorem to_list_repr (n : Nat) : (toString n).toList = digits n := by
  have same : ∀ d < 10, Nat.digitChar d = digitChar d := by decide
  rw [Nat.toString_eq_repr, Nat.toList_repr]
  induction n using Nat.strongRecOn with
  | ind n ih =>
      by_cases small : n < 10
      · rw [digits_of_lt small, Nat.toDigits_of_lt_base small, same n small]
      · have large := Nat.le_of_not_lt small
        rw [digits_of_ge large, Nat.toDigits_of_base_le (by decide) large, ih (n / 10) (by omega),
          same (n % 10) (Nat.mod_lt n (by decide))]

end NormalForm.Decimal
