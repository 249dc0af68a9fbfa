import Mathlib.Data.List.TakeWhile
import Mathlib.Data.Rat.Lemmas
import Mathlib.Tactic.FieldSimp
import NormalForm.Decimal.Numeral
import NormalForm.Proofs.Decimal.Digits

/-!
Payoffs read back as they were written: as integers, as decimals without zeros at the end, or as
fractions in lowest terms, whatever the number of places.
-/

set_option autoImplicit false

namespace NormalForm.Decimal

-- The characters of written numerals.
def isNumeralChar (c : Char) : Bool := isDigit c || c == '-' || c == '/' || c == '.'

structure Denotes (text : List Char) (value : Rat) : Prop where
  value : numeral? text = some value
  nonempty : text ≠ []
  chars : ∀ c ∈ text, isNumeralChar c = true

theorem cut_before (mark : Char) (before after : List Char) (absent : mark ∉ before) :
    cut mark (before ++ mark :: after) = some (before, after) := by
  induction before with
  | nil => simp [cut]
  | cons c rest ih =>
      rw [List.mem_cons, not_or] at absent
      have other : c ≠ mark := fun same => absent.1 same.symm
      simp [cut, other, ih absent.2]

theorem cut_absent (mark : Char) (text : List Char) (absent : mark ∉ text) : cut mark text = none := by
  induction text with
  | nil => rfl
  | cons c rest ih =>
      rw [List.mem_cons, not_or] at absent
      have other : c ≠ mark := fun same => absent.1 same.symm
      simp [cut, other, ih absent.2]

theorem not_mem_digits (mark : Char) (notDigit : isDigit mark = false) (text : List Char)
    (digit : ∀ c ∈ text, isDigit c = true) : mark ∉ text := by
  intro member
  exact Bool.false_ne_true (notDigit.symm.trans (digit mark member))

theorem numeral_char_of_digit (c : Char) (digit : isDigit c = true) : isNumeralChar c = true := by
  simp [isNumeralChar, digit]

/-! Integers and fractions. -/

theorem grouped_natural_digits (n : Nat) : groupedNatural? (digits n) = some n := by
  have all := digits_all_digits n
  have value := value_of_digits n
  cases written : digits n with
  | nil => exact absurd written (digits_ne_nil n)
  | cons c rest =>
      rw [written] at all value
      have first := all c List.mem_cons_self
      have others : ∀ d ∈ rest, isDigit d = true := fun d member => all d (List.mem_cons_of_mem c member)
      have grouped : rest.all (fun d => isDigit d || d == '_') = true :=
        List.all_eq_true.mpr fun d member => by simp [others d member]
      have filtered : (c :: rest).filter isDigit = c :: rest := List.filter_eq_self.mpr all
      rw [groupedNatural?, first, grouped, filtered, value]
      rfl

theorem grouped_integer_digits (n : Nat) : groupedInteger? (digits n) = some (n : Int) := by
  have natural := grouped_natural_digits n
  have all := digits_all_digits n
  unfold groupedInteger?
  split
  · rename_i rest written
    exact absurd (all '-' (written ▸ List.mem_cons_self)) (by decide)
  · rename_i rest written
    exact absurd (all '+' (written ▸ List.mem_cons_self)) (by decide)
  · rw [natural]
    rfl

theorem grouped_integer_integer (n : Int) : groupedInteger? (integer n) = some n := by
  rw [integer]
  by_cases negative : n < 0
  · rw [if_pos negative, groupedInteger?, grouped_natural_digits, Option.map_some, Option.some.injEq]
    omega
  · rw [if_neg negative, grouped_integer_digits, Option.some.injEq]
    omega

theorem integer_chars (n : Int) : ∀ c ∈ integer n, c = '-' ∨ isDigit c = true := by
  have digit := digits_all_digits n.natAbs
  rw [integer]
  split
  · intro c member
    rcases List.mem_cons.mp member with sign | later
    · exact Or.inl sign
    · exact Or.inr (digit c later)
  · exact fun c member => Or.inr (digit c member)

theorem integer_numeral_chars (n : Int) : ∀ c ∈ integer n, isNumeralChar c = true := by
  intro c member
  rcases integer_chars n c member with sign | digit
  · rw [sign]
    rfl
  · exact numeral_char_of_digit c digit

theorem integer_ne_nil (n : Int) : integer n ≠ [] := by
  rw [integer]
  split
  · exact List.cons_ne_nil _ _
  · exact digits_ne_nil _

theorem slash_not_in_integer (n : Int) : '/' ∉ integer n := by
  intro member
  rcases integer_chars n '/' member with sign | digit
  · exact absurd sign (by decide)
  · exact absurd digit (by decide)

theorem unsigned_decimal_digits (n : Nat) : unsignedDecimal? (digits n) = some (n : Rat) := by
  have all := digits_all_digits n
  have point : cut '.' (digits n) = none := cut_absent '.' _ (not_mem_digits '.' (by decide) _ all)
  have nonempty : (digits n).isEmpty = false := by
    simpa using digits_ne_nil n
  have digit : (digits n).all isDigit = true := List.all_eq_true.mpr all
  simp only [unsignedDecimal?, point, Option.getD_none, List.append_nil, nonempty, digit, value_of_digits]
  exact congrArg some (Rat.mkRat_one n)

theorem decimal_unsigned (c : Char) (rest : List Char) (digit : isDigit c = true) :
    decimal? (c :: rest) = unsignedDecimal? (c :: rest) := by
  unfold decimal?
  split
  · rename_i tail same
    cases same
    exact absurd digit (by decide)
  · rename_i tail same
    cases same
    exact absurd digit (by decide)
  · rfl

-- A number with a sign, as the digits of its size are read.
theorem decimal_of_size (value size : Rat) (text : List Char) (c : Char) (rest : List Char)
    (starts : text = c :: rest) (digit : isDigit c = true) (read : unsignedDecimal? text = some size)
    (same : value = if value.num < 0 then -size else size) :
    decimal? ((if value.num < 0 then ['-'] else []) ++ text) = some value := by
  by_cases negative : value.num < 0
  · rw [if_pos negative] at same ⊢
    rw [List.singleton_append, decimal?, read, Option.map_some, ← same]
  · rw [if_neg negative] at same ⊢
    rw [List.nil_append, starts, decimal_unsigned c rest digit, ← starts, read, ← same]

theorem size_of_rat (value : Rat) :
    value = if value.num < 0 then -((value.num.natAbs : Rat) / value.den) else value.num.natAbs / value.den := by
  have whole := Rat.num_div_den value
  by_cases negative : value.num < 0
  · have size : (value.num.natAbs : Rat) = -(value.num : Rat) := by
      rw [Nat.cast_natAbs, abs_of_neg negative, Int.cast_neg]
    rw [if_pos negative, size, neg_div, neg_neg, whole]
  · have size : (value.num.natAbs : Rat) = (value.num : Rat) := by
      rw [Nat.cast_natAbs, abs_of_nonneg (not_lt.mp negative)]
    rw [if_neg negative, size, whole]

theorem integer_denotes (value : Rat) (whole : value.den = 1) : Denotes (integer value.num) value := by
  refine ⟨?_, integer_ne_nil _, integer_numeral_chars _⟩
  obtain ⟨c, rest, starts⟩ := List.exists_cons_of_ne_nil (digits_ne_nil value.num.natAbs)
  have digit : isDigit c = true := digits_all_digits _ c (starts ▸ List.mem_cons_self)
  have written : integer value.num = (if value.num < 0 then ['-'] else []) ++ digits value.num.natAbs := by
    rw [integer]
    split <;> rfl
  have same := size_of_rat value
  rw [whole, Nat.cast_one, div_one] at same
  rw [numeral?, cut_absent '/' _ (slash_not_in_integer _), written]
  exact decimal_of_size value _ _ c rest starts digit (unsigned_decimal_digits _) same

theorem fraction_denotes (value : Rat) : Denotes (fraction value) value := by
  rw [fraction]
  by_cases whole : value.den = 1
  · rw [if_pos whole]
    exact integer_denotes value whole
  · rw [if_neg whole]
    refine ⟨?_, by simp, ?_⟩
    · have denominator : (value.den : Int) ≠ 0 := Int.natCast_ne_zero.mpr value.den_nz
      rw [numeral?, cut_before '/' _ _ (slash_not_in_integer _)]
      simp only [fraction?, grouped_integer_integer, grouped_integer_digits, if_neg denominator,
        Rat.num_divInt_den]
    · intro c member
      rcases List.mem_append.mp member with before | after
      · exact integer_numeral_chars _ c before
      · rcases List.mem_cons.mp after with slash | later
        · rw [slash]
          rfl
        · exact numeral_char_of_digit c (digits_all_digits _ c later)

/-! Decimals. -/

theorem trim_zeros_split (text : List Char) :
    ∃ count, text = trimZeros text ++ List.replicate count '0' := by
  have parts := List.takeWhile_append_dropWhile (p := (· == '0')) (l := text.reverse)
  have zeros : text.reverse.takeWhile (· == '0') =
      List.replicate (text.reverse.takeWhile (· == '0')).length '0' := by
    apply List.eq_replicate_of_mem
    intro c member
    simpa using List.mem_takeWhile_imp member
  refine ⟨(text.reverse.takeWhile (· == '0')).length, ?_⟩
  rw [trimZeros, ← List.reverse_replicate, ← zeros, ← List.reverse_append, parts, List.reverse_reverse]

theorem mem_of_mem_trim_zeros (text : List Char) (c : Char) (member : c ∈ trimZeros text) : c ∈ text := by
  obtain ⟨count, parts⟩ := trim_zeros_split text
  rw [parts]
  exact List.mem_append_left _ member

-- A decimal without its sign: so many units of the last place.
def unsignedText (scaled places : Nat) : List Char :=
  digits (scaled / 10 ^ places) ++ '.' :: trimZeros (padded places (scaled % 10 ^ places))

theorem unsigned_text_chars (scaled places : Nat) (c : Char) (member : c ∈ unsignedText scaled places) :
    c = '.' ∨ isDigit c = true := by
  rcases List.mem_append.mp member with before | after
  · exact Or.inr (digits_all_digits _ c before)
  · rcases List.mem_cons.mp after with point | later
    · exact Or.inl point
    · exact Or.inr (padded_all_digits _ _ c (mem_of_mem_trim_zeros _ c later))

theorem signed_text_chars (negative : Prop) [Decidable negative] (scaled places : Nat) (c : Char)
    (member : c ∈ (if negative then ['-'] else []) ++ unsignedText scaled places) :
    c = '-' ∨ c = '.' ∨ isDigit c = true := by
  rcases List.mem_append.mp member with sign | rest
  · split at sign
    · exact Or.inl (List.mem_singleton.mp sign)
    · cases sign
  · exact Or.inr (unsigned_text_chars scaled places c rest)

theorem unsigned_text_value (scaled places : Nat) (positive : 0 < places) :
    unsignedDecimal? (unsignedText scaled places) = some ((scaled : Rat) / (10 : Rat) ^ places) := by
  have below : scaled % 10 ^ places < 10 ^ places := Nat.mod_lt _ (Nat.pow_pos (by decide))
  obtain ⟨count, parts⟩ := trim_zeros_split (padded places (scaled % 10 ^ places))
  have length := padded_length places _ positive below
  have value := value_of_padded places (scaled % 10 ^ places)
  have paddedDigits := padded_all_digits places (scaled % 10 ^ places)
  rw [unsignedText]
  generalize trimZeros (padded places (scaled % 10 ^ places)) = kept at parts ⊢
  rw [parts, List.length_append, List.length_replicate] at length
  rw [parts, value_of_append, value_of_zeros, List.length_replicate, Nat.add_zero] at value
  have keptDigits : ∀ c ∈ kept, isDigit c = true := fun c member =>
    paddedDigits c (parts ▸ List.mem_append_left _ member)
  have wholeDigits := digits_all_digits (scaled / 10 ^ places)
  have all : (digits (scaled / 10 ^ places) ++ kept).all isDigit = true := by
    rw [List.all_append, List.all_eq_true.mpr wholeDigits, List.all_eq_true.mpr keptDigits]
    rfl
  have nonempty : (digits (scaled / 10 ^ places) ++ kept).isEmpty = false := by
    simp [digits_ne_nil]
  have read : valueOf (digits (scaled / 10 ^ places) ++ kept) * 10 ^ count = scaled := by
    rw [value_of_append, value_of_digits, Nat.add_mul, value, Nat.mul_assoc, ← Nat.pow_add, length]
    exact Nat.div_add_mod' scaled (10 ^ places)
  simp only [unsignedDecimal?, cut_before '.' _ _ (not_mem_digits '.' (by decide) _ wholeDigits),
    Option.getD_some, all, nonempty]
  refine congrArg some ?_
  generalize valueOf (digits (scaled / 10 ^ places) ++ kept) = shown at read ⊢
  have power : (10 : Rat) ^ places = 10 ^ kept.length * 10 ^ count := by rw [← pow_add, length]
  rw [Rat.mkRat_eq_div, ← read, power, Nat.pow_eq]
  push_cast
  field_simp

-- Scaling by a power of ten that the denominator divides loses nothing.
theorem scaled_size (value : Rat) (places : Nat) (divides : value.den ∣ 10 ^ places) :
    ((value.num.natAbs * (10 ^ places / value.den) : Nat) : Rat) / 10 ^ places =
      value.num.natAbs / value.den := by
  obtain ⟨factor, power⟩ := divides
  have denominator : (value.den : Rat) ≠ 0 := Nat.cast_ne_zero.mpr value.den_nz
  have nonzero : (factor : Rat) ≠ 0 := by
    rw [Nat.cast_ne_zero]
    rintro rfl
    exact absurd power (Nat.ne_of_gt (Nat.pow_pos (by decide)))
  have ten : (10 : Rat) ^ places = value.den * factor := by exact_mod_cast power
  rw [power, Nat.mul_div_cancel_left _ value.den_pos, ten]
  push_cast
  field_simp

theorem decimal_signed (value : Rat) (places : Nat) :
    decimal value places = (if value.num < 0 then ['-'] else []) ++
      unsignedText (value.num.natAbs * (10 ^ usefulPlaces value places / value.den)) (usefulPlaces value places) :=
  List.append_assoc _ _ _

theorem useful_places_positive (value : Rat) (places : Nat) (notWhole : value.den ≠ 1)
    (divides : value.den ∣ 10 ^ usefulPlaces value places) : 0 < usefulPlaces value places := by
  apply Nat.pos_of_ne_zero
  intro zero
  rw [zero, Nat.pow_zero] at divides
  exact notWhole (Nat.dvd_one.mp divides)

theorem decimal_denotes (value : Rat) (places : Nat) (notWhole : value.den ≠ 1)
    (finite : isDecimal value places = true) : Denotes (decimal value places) value := by
  have divides : value.den ∣ 10 ^ usefulPlaces value places := Nat.dvd_of_mod_eq_zero (eq_of_beq finite)
  have positive := useful_places_positive value places notWhole divides
  have same := size_of_rat value
  rw [← scaled_size value _ divides] at same
  rw [decimal_signed]
  generalize value.num.natAbs * (10 ^ usefulPlaces value places / value.den) = scaled at same ⊢
  generalize usefulPlaces value places = useful at positive same ⊢
  have chars := signed_text_chars (value.num < 0) scaled useful
  refine ⟨?_, by simp [unsignedText], ?_⟩
  · have noSlash : '/' ∉ (if value.num < 0 then ['-'] else []) ++ unsignedText scaled useful := by
      intro member
      rcases chars '/' member with sign | point | digit
      · exact absurd sign (by decide)
      · exact absurd point (by decide)
      · exact absurd digit (by decide)
    obtain ⟨c, rest, starts⟩ := List.exists_cons_of_ne_nil (digits_ne_nil (scaled / 10 ^ useful))
    have digit : isDigit c = true := digits_all_digits _ c (starts ▸ List.mem_cons_self)
    rw [numeral?, cut_absent '/' _ noSlash]
    exact decimal_of_size value _ _ c _ (by rw [unsignedText, starts, List.cons_append]) digit
      (unsigned_text_value scaled useful positive) same
  · intro c member
    rcases chars c member with sign | point | digit
    · rw [sign]
      rfl
    · rw [point]
      rfl
    · exact numeral_char_of_digit c digit

theorem numeral_succeeds (value : Rat) (places : Nat) (within : places ≤ maxPlaces) :
    ∃ text, numeral value places = .ok text := by
  rw [numeral, if_neg (Nat.not_lt.mpr within)]
  split
  · exact ⟨_, rfl⟩
  · exact ⟨_, rfl⟩

-- A payoff that can be written is read back exactly.
theorem numeral_denotes (value : Rat) (places : Nat) (text : List Char) (written : numeral value places = .ok text) :
    Denotes text value := by
  rw [numeral] at written
  by_cases plain : (value.den = 1 || !isDecimal value places) = true
  · rw [if_pos plain] at written
    cases written
    exact fraction_denotes value
  · rw [if_neg plain] at written
    split at written
    · cases written
    · cases written
      simp only [Bool.or_eq_true, decide_eq_true_eq, Bool.not_eq_true', not_or, Bool.not_eq_false] at plain
      exact decimal_denotes value places plain.1 plain.2

theorem natural_denotes (n : Nat) : Denotes (digits n) n := by
  have written := integer_denotes (n : Rat) rfl
  have same : integer (n : Rat).num = digits n := by
    rw [Rat.num_natCast, integer, if_neg (by omega), Int.natAbs_natCast]
  rwa [same] at written

end NormalForm.Decimal
