import Mathlib.Algebra.Order.Ring.Unbundled.Rat
import Mathlib.Data.Nat.Prime.Basic
import NormalForm.Proofs.Decimal.RoundTrip

/-!
The forms of a written payoff. Which of the three it takes is a question about the number alone: whether it is an
integer, and whether it becomes one when it is scaled by a power of ten. A denominator that divides a power of ten
divides the one whose exponent is its binary logarithm, so that no form is lost where fewer places are tried.
-/

set_option autoImplicit false

namespace NormalForm.Decimal

-- Digits, and no zero before them that could be left out.
structure WholePart (text : List Char) : Prop where
  nonempty : text ≠ []
  digits : ∀ c ∈ text, isDigit c = true
  tight : text.head? = some '0' → text = ['0']

-- A sign where the value is negative, a whole part, a point, and digits of which the last one is not a zero.
def PointForm (value : Rat) (places : Nat) (text : List Char) : Prop :=
  ∃ whole fraction, text = (if value < 0 then ['-'] else []) ++ whole ++ '.' :: fraction ∧ WholePart whole ∧
    1 ≤ fraction.length ∧ fraction.length ≤ places ∧ (∀ c ∈ fraction, isDigit c = true) ∧
    fraction.getLast? ≠ some '0'

/-! Which numbers are decimals. -/

theorem scaled_integer_iff (value : Rat) (places : Nat) :
    (∃ n : Int, value * 10 ^ places = n) ↔ value.den ∣ 10 ^ places := by
  have ten : (10 : Rat) ^ places ≠ 0 := pow_ne_zero places (by norm_num)
  constructor
  · rintro ⟨n, scaled⟩
    have quotient : value = (n : Rat) / ((10 ^ places : Int) : Rat) := by
      push_cast
      rw [← scaled, mul_div_cancel_right₀ value ten]
    have divides := Rat.den_dvd n (10 ^ places)
    rw [Rat.divInt_eq_div, ← quotient] at divides
    exact_mod_cast divides
  · rintro ⟨factor, power⟩
    refine ⟨value.num * factor, ?_⟩
    have whole : (10 : Rat) ^ places = value.den * factor := by exact_mod_cast power
    rw [whole, ← mul_assoc, Rat.mul_den_eq_num]
    push_cast
    rfl

theorem integer_iff (value : Rat) : (∃ n : Int, value = n) ↔ value.den = 1 := by
  have scaled := scaled_integer_iff value 0
  simpa using scaled

-- A power of two or of five that divides the number is at most the number, and two is the smaller base.
theorem exponent_le_log (base exponent d : Nat) (large : 2 ≤ base) (positive : d ≠ 0) (divides : base ^ exponent ∣ d) :
    exponent ≤ d.log2 := by
  have small : 2 ^ exponent ≤ d :=
    (Nat.pow_le_pow_left large exponent).trans (Nat.le_of_dvd (Nat.pos_of_ne_zero positive) divides)
  exact (Nat.le_log2 positive).mpr small

theorem divides_useful_power (d places : Nat) (positive : d ≠ 0) : d ∣ 10 ^ min places d.log2 ↔ d ∣ 10 ^ places := by
  constructor
  · intro divides
    exact divides.trans (Nat.pow_dvd_pow 10 (Nat.min_le_left _ _))
  · intro divides
    have base : 10 = 2 * 5 := rfl
    rw [base, Nat.mul_pow] at divides ⊢
    obtain ⟨twos, fives, left, right, rfl⟩ := (Nat.dvd_mul).mp divides
    obtain ⟨i, few, rfl⟩ := (Nat.dvd_prime_pow Nat.prime_two).mp left
    obtain ⟨j, some, rfl⟩ := (Nat.dvd_prime_pow Nat.prime_five).mp right
    have first := exponent_le_log 2 i _ (by decide) positive (Nat.dvd_mul_right _ _)
    have second := exponent_le_log 5 j _ (by decide) positive (Nat.dvd_mul_left _ _)
    exact Nat.mul_dvd_mul (Nat.pow_dvd_pow 2 (Nat.le_min.mpr ⟨few, first⟩))
      (Nat.pow_dvd_pow 5 (Nat.le_min.mpr ⟨some, second⟩))

theorem is_decimal_iff (value : Rat) (places : Nat) :
    isDecimal value places = true ↔ ∃ n : Int, value * 10 ^ places = n := by
  rw [scaled_integer_iff, ← divides_useful_power value.den places value.den_nz, isDecimal, beq_iff_eq, Nat.pow_eq,
    ← Nat.dvd_iff_mod_eq_zero]
  rfl

/-! How they are laid out. -/

theorem digits_head (n : Nat) (positive : 0 < n) : (digits n).head? ≠ some '0' := by
  induction n using Nat.strongRecOn with
  | ind n ih =>
      by_cases small : n < 10
      · have zero : digitChar n = '0' → n = 0 := by
          intro same
          rw [← digit_value_digit_char n small, same]
          rfl
        rw [digits_of_lt small, List.head?_cons, ne_eq, Option.some.injEq]
        exact fun same => Nat.ne_of_gt positive (zero same)
      · have large := Nat.le_of_not_lt small
        have some : 0 < n / 10 := Nat.div_pos large (by decide)
        rw [digits_of_ge large, List.head?_append_of_ne_nil _ (digits_ne_nil _)]
        exact ih (n / 10) (by omega) some

theorem digits_whole_part (n : Nat) : WholePart (digits n) := by
  refine ⟨digits_ne_nil n, digits_all_digits n, fun zero => ?_⟩
  rcases Nat.eq_zero_or_pos n with rfl | positive
  · exact digits_of_lt (by decide)
  · exact absurd zero (digits_head n positive)

-- The library's integers too.
theorem to_list_integer (n : Int) : (toString n).toList = integer n := by
  rw [integer]
  by_cases negative : n < 0
  · obtain ⟨m, rfl⟩ := Int.eq_negSucc_of_lt_zero negative
    rw [if_pos negative, Int.natAbs_negSucc, ← to_list_repr]
    exact String.toList_append (s := "-")
  · obtain ⟨m, rfl⟩ := Int.eq_ofNat_of_zero_le (not_lt.mp negative)
    rw [if_neg negative, Int.natAbs_natCast, ← to_list_repr]
    rfl

theorem to_list_fraction (numerator : Int) (denominator : Nat) :
    (toString numerator ++ "/" ++ toString denominator).toList = integer numerator ++ '/' :: digits denominator := by
  rw [String.toList_append, String.toList_append, to_list_integer, to_list_repr, List.append_assoc]
  rfl

theorem trim_zeros_last (text : List Char) : (trimZeros text).getLast? ≠ some '0' := by
  rw [trimZeros, List.getLast?_reverse]
  intro last
  have kept := List.head?_dropWhile_not (· == '0') text.reverse
  rw [last] at kept
  exact absurd kept (by decide)

theorem trim_zeros_length (text : List Char) : (trimZeros text).length ≤ text.length := by
  obtain ⟨count, parts⟩ := trim_zeros_split text
  have whole := congrArg List.length parts
  rw [List.length_append] at whole
  omega

-- Nothing but zeros is left out.
theorem trim_zeros_some (width n : Nat) (positive : 0 < n) : 1 ≤ (trimZeros (padded width n)).length := by
  obtain ⟨count, parts⟩ := trim_zeros_split (padded width n)
  have value := value_of_padded width n
  apply Nat.pos_of_ne_zero
  intro none
  rw [List.eq_nil_of_length_eq_zero none, List.nil_append] at parts
  rw [parts, value_of_zeros] at value
  omega

-- What the units of the last place leave beyond the whole part.
theorem rest_positive (value : Rat) (power : Nat) (notWhole : value.den ≠ 1) (divides : value.den ∣ power)
    (positive : 0 < power) : 0 < value.num.natAbs * (power / value.den) % power := by
  obtain ⟨factor, rfl⟩ := divides
  have some : 0 < factor := Nat.pos_of_mul_pos_left positive
  rw [Nat.mul_div_cancel_left _ value.den_pos]
  apply Nat.pos_of_ne_zero
  intro none
  have whole := Nat.dvd_of_mul_dvd_mul_right some (Nat.dvd_of_mod_eq_zero none)
  exact notWhole (Nat.Coprime.eq_one_of_dvd value.reduced.symm whole)

theorem unsigned_text_form (scaled useful : Nat) (positive : 0 < useful) (rest : 0 < scaled % 10 ^ useful) :
    ∃ whole fraction, unsignedText scaled useful = whole ++ '.' :: fraction ∧ WholePart whole ∧
      1 ≤ fraction.length ∧ fraction.length ≤ useful ∧ (∀ c ∈ fraction, isDigit c = true) ∧
      fraction.getLast? ≠ some '0' := by
  have below : scaled % 10 ^ useful < 10 ^ useful := Nat.mod_lt _ (Nat.pow_pos (by decide))
  have laid := padded_length useful _ positive below
  have kept := trim_zeros_length (padded useful (scaled % 10 ^ useful))
  have digit : ∀ c ∈ trimZeros (padded useful (scaled % 10 ^ useful)), isDigit c = true := fun c member =>
    padded_all_digits useful _ c (mem_of_mem_trim_zeros _ c member)
  rw [laid] at kept
  exact ⟨_, _, rfl, digits_whole_part _, trim_zeros_some _ _ rest, kept, digit, trim_zeros_last _⟩

theorem decimal_point_form (value : Rat) (places : Nat) (notWhole : value.den ≠ 1)
    (finite : isDecimal value places = true) : PointForm value places (decimal value places) := by
  have divides : value.den ∣ 10 ^ usefulPlaces value places := Nat.dvd_of_mod_eq_zero (eq_of_beq finite)
  have positive := useful_places_positive value places notWhole divides
  have rest := rest_positive value _ notWhole divides (Nat.pow_pos (by decide))
  obtain ⟨whole, fraction, written, plain, some, few, digit, last⟩ := unsigned_text_form _ _ positive rest
  have signed : decimal value places = (if value < 0 then ['-'] else []) ++ whole ++ '.' :: fraction := by
    rw [decimal_signed, written, List.append_assoc]
    simp only [Rat.num_neg]
  exact ⟨whole, fraction, signed, plain, some, few.trans (Nat.min_le_left _ _), digit, last⟩

/-! The numeral as a whole. -/

-- Within the limit of places nothing fails, and the denominator tells the three forms apart.
theorem numeral_branches (value : Rat) (places : Nat) (within : places ≤ maxPlaces) :
    numeral value places = .ok (if value.den = 1 then integer value.num
      else if isDecimal value places then decimal value places
      else integer value.num ++ '/' :: digits value.den) := by
  rw [numeral, if_neg (Nat.not_lt.mpr within), fraction]
  by_cases whole : value.den = 1
  · simp [whole]
  · by_cases finite : isDecimal value places = true
    · simp [whole, finite]
    · simp [whole, finite]

theorem numeral_forms (value : Rat) (places : Nat) (within : places < 65536) :
    ∃ text, numeral value places = .ok text ∧ numeral? text = some value ∧
      (∀ n : Int, value = n → text = (toString n).toList) ∧
      ((∀ n : Int, value ≠ n) → (∃ n : Int, value * 10 ^ places = n) → PointForm value places text) ∧
      ((∀ n : Int, value * 10 ^ places ≠ n) → ∃ (numerator : Int) (denominator : Nat), 0 < denominator ∧
        numerator.natAbs.Coprime denominator ∧ value = numerator / denominator ∧
        text = (toString numerator ++ "/" ++ toString denominator).toList) ∧
      ∀ other < 65536, ∃ otherText, numeral value other = .ok otherText ∧ numeral? otherText = numeral? text := by
  have written := numeral_branches value places (Nat.le_of_lt_succ within)
  have read := (numeral_denotes value places _ written).value
  refine ⟨_, written, read, ?_, ?_, ?_, ?_⟩
  · rintro n rfl
    rw [if_pos (Rat.den_intCast n), Rat.num_intCast, to_list_integer]
  · intro notWhole finite
    have fractional : value.den ≠ 1 := fun whole =>
      ((integer_iff value).mpr whole).elim notWhole
    rw [if_neg fractional, if_pos ((is_decimal_iff value places).mpr finite)]
    exact decimal_point_form value places fractional ((is_decimal_iff value places).mpr finite)
  · intro infinite
    have notFinite : ¬isDecimal value places = true := fun finite =>
      ((is_decimal_iff value places).mp finite).elim infinite
    have fractional : value.den ≠ 1 := by
      intro whole
      have divides : value.den ∣ 10 ^ places := whole ▸ Nat.one_dvd _
      exact ((scaled_integer_iff value places).mpr divides).elim infinite
    refine ⟨value.num, value.den, value.den_pos, value.reduced, (Rat.num_div_den value).symm, ?_⟩
    rw [if_neg fractional, if_neg notFinite, to_list_fraction]
  · intro other few
    have otherWritten := numeral_branches value other (Nat.le_of_lt_succ few)
    exact ⟨_, otherWritten, (numeral_denotes value other _ otherWritten).value.trans read.symm⟩

-- A twentieth below zero fits three places, with a zero before its digit, and does not fit one.
theorem numeral_forms_twentieth :
    3 < 65536 ∧ numeral (-1 / 20) 3 = .ok "-0.05".toList ∧ numeral (-1 / 20) 1 = .ok "-1/20".toList ∧
      PointForm (-1 / 20) 3 "-0.05".toList ∧ numeral? "-1/20".toList = numeral? "-0.05".toList := by
  have three : numeral (-1 / 20) 3 = .ok "-0.05".toList := by decide +kernel
  have one : numeral (-1 / 20) 1 = .ok "-1/20".toList := by decide +kernel
  obtain ⟨text, written, -, -, point, -, others⟩ := numeral_forms (-1 / 20) 3 (by decide)
  obtain rfl : "-0.05".toList = text := Except.ok.inj (three.symm.trans written)
  obtain ⟨other, again, agree⟩ := others 1 (by decide)
  obtain rfl : "-1/20".toList = other := Except.ok.inj (one.symm.trans again)
  have notWhole : ∀ n : Int, (-1 / 20 : Rat) ≠ n := by
    intro n same
    exact absurd ((integer_iff _).mp ⟨n, same⟩) (by decide +kernel)
  have finite : ∃ n : Int, (-1 / 20 : Rat) * 10 ^ 3 = n := (is_decimal_iff _ 3).mp (by decide +kernel)
  exact ⟨by decide, three, one, point notWhole finite, agree⟩

end NormalForm.Decimal
