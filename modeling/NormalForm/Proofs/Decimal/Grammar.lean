import Mathlib.Data.List.Induction
import Mathlib.Data.Nat.Digits.Defs
import NormalForm.Proofs.Decimal.RoundTrip

/-!
The language of numerals and the numbers that they stand for, apart from how they are read. A numeral is
a fraction of two integers, whose digits may be grouped by underscores, or a decimal; nothing else is read
as a number.
-/

set_option autoImplicit false

namespace NormalForm.Decimal

def Digit (c : Char) : Prop := '0' ≤ c ∧ c ≤ '9'

instance (c : Char) : Decidable (Digit c) := inferInstanceAs (Decidable ('0' ≤ c ∧ c ≤ '9'))

-- What digits stand for by their places, the last of which counts ones.
def positional (digits : List Char) : Nat :=
  Nat.ofDigits 10 (digits.reverse.map fun c => c.toNat - '0'.toNat)

-- One sign or none, and the factor that it means.
inductive Sign : List Char → Int → Prop where
  | none : Sign [] 1
  | plus : Sign ['+'] 1
  | minus : Sign ['-'] (-1)

-- A digit, then digits and underscores, which mean nothing.
inductive Grouped : List Char → Int → Prop where
  | signed (sign rest : List Char) (factor : Int) (first : Char) (signed : Sign sign factor) (leads : Digit first)
      (others : ∀ c ∈ rest, Digit c ∨ c = '_') :
      Grouped (sign ++ first :: rest) (factor * positional ((first :: rest).filter (· ≠ '_')))

-- At least one digit, and at most one point before, among or after the digits.
inductive Pointed : List Char → Rat → Prop where
  | plain (digits : List Char) (some : digits ≠ []) (all : ∀ c ∈ digits, Digit c) : Pointed digits (positional digits)
  | point (whole fraction : List Char) (some : whole ++ fraction ≠ []) (all : ∀ c ∈ whole ++ fraction, Digit c) :
      Pointed (whole ++ '.' :: fraction) (positional whole + positional fraction / 10 ^ fraction.length)

inductive Numeral : List Char → Rat → Prop where
  | fraction (above below : List Char) (n d : Int) (numerator : Grouped above n) (denominator : Grouped below d)
      (nonzero : d ≠ 0) : Numeral (above ++ '/' :: below) (n / d)
  | decimal (sign body : List Char) (factor : Int) (size : Rat) (signed : Sign sign factor)
      (pointed : Pointed body size) : Numeral (sign ++ body) (factor * size)

/-! Characters. -/

theorem is_digit_iff (c : Char) : isDigit c = true ↔ Digit c := by
  simp [isDigit, Digit]

-- All that a numeral is written with.
def Inked (c : Char) : Prop := Digit c ∨ c ∈ ['+', '-', '.', '/', '_']

theorem sign_chars (sign : List Char) (factor : Int) (signed : Sign sign factor) :
    ∀ c ∈ sign, c = '+' ∨ c = '-' := by
  cases signed with
  | none => nofun
  | plus => exact List.forall_mem_singleton.mpr (.inl rfl)
  | minus => exact List.forall_mem_singleton.mpr (.inr rfl)

theorem grouped_chars (text : List Char) (n : Int) (grouped : Grouped text n) :
    ∀ c ∈ text, Digit c ∨ c = '+' ∨ c = '-' ∨ c = '_' := by
  obtain ⟨sign, rest, factor, first, signed, leads, others⟩ := grouped
  intro c member
  rcases List.mem_append.mp member with before | after
  · rcases sign_chars sign factor signed c before with plus | minus
    · exact .inr (.inl plus)
    · exact .inr (.inr (.inl minus))
  · rcases List.mem_cons.mp after with rfl | later
    · exact .inl leads
    · rcases others c later with digit | gap
      · exact .inl digit
      · exact .inr (.inr (.inr gap))

theorem pointed_chars (text : List Char) (size : Rat) (pointed : Pointed text size) :
    ∀ c ∈ text, Digit c ∨ c = '.' := by
  cases pointed with
  | plain _ _ all => exact fun c member => .inl (all c member)
  | point whole fraction _ all =>
      intro c member
      rcases List.mem_append.mp member with before | after
      · exact .inl (all c (List.mem_append_left _ before))
      · rcases List.mem_cons.mp after with point | later
        · exact .inr point
        · exact .inl (all c (List.mem_append_right _ later))

theorem pointed_nonempty (text : List Char) (size : Rat) (pointed : Pointed text size) : text ≠ [] := by
  cases pointed with
  | plain _ some => exact some
  | point whole fraction => simp

theorem numeral_inked (text : List Char) (value : Rat) (numeral : Numeral text value) :
    text ≠ [] ∧ ∀ c ∈ text, Inked c := by
  cases numeral with
  | fraction above below n d numerator denominator =>
      refine ⟨by simp, fun c member => ?_⟩
      have part : ∀ text n, Grouped text n → c ∈ text → Inked c := fun text n grouped inside =>
        (grouped_chars text n grouped c inside).imp_right (by rintro (rfl | rfl | rfl) <;> decide)
      rcases List.mem_append.mp member with before | after
      · exact part above n numerator before
      · rcases List.mem_cons.mp after with rfl | later
        · exact .inr (by decide)
        · exact part below d denominator later
  | decimal sign body factor size signed pointed =>
      refine ⟨List.append_ne_nil_of_right_ne_nil sign (pointed_nonempty body size pointed), fun c member => ?_⟩
      rcases List.mem_append.mp member with before | after
      · rcases sign_chars sign factor signed c before with rfl | rfl
        · exact .inr (by decide)
        · exact .inr (by decide)
      · rcases pointed_chars body size pointed c after with digit | rfl
        · exact .inl digit
        · exact .inr (by decide)

/-! Cutting at a mark. -/

theorem cut_parts (mark : Char) (text before after : List Char) (found : cut mark text = some (before, after)) :
    text = before ++ mark :: after := by
  induction text generalizing before with
  | nil => cases found
  | cons c rest ih =>
      rw [cut] at found
      split at found
      · rename_i same
        cases found
        rw [same, List.nil_append]
      · obtain ⟨⟨front, back⟩, later, same⟩ := Option.map_eq_some_iff.mp found
        cases same
        rw [ih front later, List.cons_append]

/-! Values. -/

theorem value_of_positional (digits : List Char) : valueOf digits = positional digits := by
  induction digits using List.reverseRecOn with
  | nil => rfl
  | append_singleton front c ih =>
      have last : valueOf [c] = c.toNat - '0'.toNat := Nat.zero_add _
      rw [value_of_append, ih, last, positional, positional, List.reverse_append, List.reverse_singleton, List.singleton_append,
        List.map_cons, Nat.ofDigits_cons, ← positional, List.length_singleton]
      omega

theorem filter_groups (text : List Char) (chars : ∀ c ∈ text, Digit c ∨ c = '_') :
    text.filter isDigit = text.filter (· ≠ '_') := by
  refine List.filter_congr fun c member => ?_
  rcases chars c member with digit | rfl
  · have other : c ≠ '_' := by
      rintro rfl
      exact absurd digit (by decide)
    rw [(is_digit_iff c).mpr digit, decide_eq_true other]
  · decide

theorem grouped_natural_iff (text : List Char) (n : Nat) : groupedNatural? text = some n ↔
    ∃ first rest, text = first :: rest ∧ Digit first ∧ (∀ c ∈ rest, Digit c ∨ c = '_') ∧
      n = positional (text.filter (· ≠ '_')) := by
  cases text with
  | nil => exact ⟨nofun, nofun⟩
  | cons c rest =>
      have shape : (isDigit c && rest.all fun d => isDigit d || d == '_') = true ↔
          Digit c ∧ ∀ d ∈ rest, Digit d ∨ d = '_' := by
        simp [is_digit_iff]
      rw [groupedNatural?]
      constructor
      · intro read
        split at read
        · rename_i accepted
          obtain ⟨leads, others⟩ := shape.mp accepted
          have chars : ∀ d ∈ c :: rest, Digit d ∨ d = '_' := List.forall_mem_cons.mpr ⟨.inl leads, others⟩
          cases read
          exact ⟨c, rest, rfl, leads, others, by rw [value_of_positional, filter_groups _ chars]⟩
        · cases read
      · rintro ⟨first, others, same, leads, grouped, rfl⟩
        cases same
        have chars : ∀ d ∈ c :: rest, Digit d ∨ d = '_' := List.forall_mem_cons.mpr ⟨.inl leads, grouped⟩
        rw [if_pos (shape.mpr ⟨leads, grouped⟩), value_of_positional, filter_groups _ chars]

-- A digit is no sign, so that each text has one case of the reader.
theorem grouped_integer_iff (text : List Char) (n : Int) : groupedInteger? text = some n ↔ Grouped text n := by
  constructor
  · intro read
    have signed : ∀ sign factor body, Sign sign factor →
        (groupedNatural? body).map (fun m : Nat => factor * (m : Int)) = some n → Grouped (sign ++ body) n := by
      intro sign factor body signed run
      obtain ⟨m, natural, rfl⟩ := Option.map_eq_some_iff.mp run
      obtain ⟨first, rest, rfl, leads, others, rfl⟩ := (grouped_natural_iff body m).mp natural
      exact .signed sign rest factor first signed leads others
    unfold groupedInteger? at read
    split at read
    · exact signed ['-'] (-1) _ .minus (by simpa only [neg_one_mul] using read)
    · exact signed ['+'] 1 _ .plus (by simpa only [one_mul] using read)
    · exact signed [] 1 _ .none (by simpa only [one_mul] using read)
  · rintro ⟨sign, rest, factor, first, signed, leads, others⟩
    have natural := (grouped_natural_iff (first :: rest) _).mpr ⟨first, rest, rfl, leads, others, rfl⟩
    cases signed with
    | none =>
        rw [List.nil_append, one_mul]
        unfold groupedInteger?
        split
        · rename_i tail same
          cases same
          exact absurd leads (by decide)
        · rename_i tail same
          cases same
          exact absurd leads (by decide)
        · rw [natural, Option.map_some]
    | plus => rw [List.singleton_append, groupedInteger?, natural, Option.map_some, one_mul]
    | minus => rw [List.singleton_append, groupedInteger?, natural, Option.map_some, neg_one_mul]

/-! Decimals. -/

theorem all_digits_iff (text : List Char) : text.all isDigit = true ↔ ∀ c ∈ text, Digit c := by
  simp [is_digit_iff]

-- The digits of both parts are read as one number, in units of the last place.
theorem joined_value (whole fraction : List Char) :
    mkRat (valueOf (whole ++ fraction)) (Nat.pow 10 fraction.length) =
      positional whole + positional fraction / 10 ^ fraction.length := by
  have ten : (10 : Rat) ^ fraction.length ≠ 0 := pow_ne_zero _ (by norm_num)
  rw [value_of_append, value_of_positional, value_of_positional, Rat.mkRat_eq_div, Nat.pow_eq]
  push_cast
  rw [add_div, mul_div_cancel_right₀ _ ten]

-- The parts before and after the point, of which the second is empty where there is none.
theorem unsigned_decimal_parts (text whole fraction : List Char) (size : Rat)
    (parts : (cut '.' text).getD (text, []) = (whole, fraction)) : unsignedDecimal? text = some size ↔
      whole ++ fraction ≠ [] ∧ (∀ c ∈ whole ++ fraction, Digit c) ∧
        positional whole + positional fraction / 10 ^ fraction.length = size := by
  have refused : ((whole ++ fraction).isEmpty || !(whole ++ fraction).all isDigit) = true ↔
      ¬ (whole ++ fraction ≠ [] ∧ ∀ c ∈ whole ++ fraction, Digit c) := by
    rw [Bool.or_eq_true, List.isEmpty_iff, Bool.not_eq_true', ← all_digits_iff, Bool.eq_false_iff, not_and_or, not_not]
  rw [unsignedDecimal?, parts]
  dsimp only
  split
  · rename_i bad
    exact ⟨fun read => absurd read.symm (Option.some_ne_none size),
      fun shape => absurd ⟨shape.1, shape.2.1⟩ (refused.mp bad)⟩
  · rename_i good
    have shape := not_not.mp (mt refused.mpr good)
    rw [Option.some.injEq, joined_value]
    exact ⟨fun same => ⟨shape.1, shape.2, same⟩, fun all => all.2.2⟩

theorem unsigned_decimal_iff (text : List Char) (size : Rat) : unsignedDecimal? text = some size ↔ Pointed text size := by
  constructor
  · intro read
    cases found : cut '.' text with
    | none =>
        have parts : (cut '.' text).getD (text, []) = (text, []) := by rw [found, Option.getD_none]
        obtain ⟨some, all, rfl⟩ := (unsigned_decimal_parts text text [] size parts).mp read
        rw [List.append_nil] at some all
        simpa [positional] using Pointed.plain text some all
    | some halves =>
        obtain ⟨whole, fraction⟩ := halves
        have parts : (cut '.' text).getD (text, []) = (whole, fraction) := by rw [found, Option.getD_some]
        obtain ⟨some, all, rfl⟩ := (unsigned_decimal_parts text whole fraction size parts).mp read
        rw [cut_parts '.' text whole fraction found]
        exact .point whole fraction some all
  · intro pointed
    have pointless : ∀ digits : List Char, (∀ c ∈ digits, Digit c) → '.' ∉ digits := fun digits all member =>
      absurd (all '.' member) (by decide)
    cases pointed with
    | plain _ some all =>
        have parts : (cut '.' text).getD (text, []) = (text, []) := by
          rw [cut_absent '.' text (pointless text all), Option.getD_none]
        refine (unsigned_decimal_parts text text [] _ parts).mpr ⟨?_, ?_, ?_⟩
        · rwa [List.append_nil]
        · rwa [List.append_nil]
        · simp [positional]
    | point whole fraction some all =>
        have before := pointless whole fun c member => all c (List.mem_append_left _ member)
        have parts : (cut '.' (whole ++ '.' :: fraction)).getD (whole ++ '.' :: fraction, []) = (whole, fraction) := by
          rw [cut_before '.' whole fraction before, Option.getD_some]
        exact (unsigned_decimal_parts _ whole fraction _ parts).mpr ⟨some, all, rfl⟩

-- Neither a digit nor a point is a sign.
theorem decimal_iff (text : List Char) (value : Rat) : decimal? text = some value ↔
    ∃ sign body factor size, text = sign ++ body ∧ Sign sign factor ∧ Pointed body size ∧ factor * size = value := by
  constructor
  · intro read
    unfold decimal? at read
    split at read
    · rename_i body
      obtain ⟨size, unsigned, rfl⟩ := Option.map_eq_some_iff.mp read
      have pointed := (unsigned_decimal_iff body size).mp unsigned
      exact ⟨['-'], body, -1, size, rfl, .minus, pointed, by push_cast; ring⟩
    · rename_i body
      have pointed := (unsigned_decimal_iff body value).mp read
      exact ⟨['+'], body, 1, value, rfl, .plus, pointed, by push_cast; ring⟩
    · have pointed := (unsigned_decimal_iff text value).mp read
      exact ⟨[], text, 1, value, rfl, .none, pointed, by push_cast; ring⟩
  · rintro ⟨sign, body, factor, size, rfl, signed, pointed, rfl⟩
    have unsigned := (unsigned_decimal_iff body size).mpr pointed
    cases signed with
    | none =>
        have chars := pointed_chars body size pointed
        rw [List.nil_append, Int.cast_one, one_mul]
        unfold decimal?
        split
        · exact absurd (chars '-' List.mem_cons_self) (by decide)
        · exact absurd (chars '+' List.mem_cons_self) (by decide)
        · exact unsigned
    | plus => rw [List.singleton_append, decimal?, unsigned, Int.cast_one, one_mul]
    | minus => rw [List.singleton_append, decimal?, unsigned, Option.map_some, Int.cast_neg, Int.cast_one, neg_one_mul]

/-! The numeral as a whole. -/

theorem fraction_iff (above below : List Char) (value : Rat) : fraction? above below = some value ↔
    ∃ n d : Int, Grouped above n ∧ Grouped below d ∧ d ≠ 0 ∧ (n : Rat) / d = value := by
  constructor
  · intro read
    unfold fraction? at read
    split at read
    · rename_i n d numerator denominator
      split at read
      · cases read
      · rename_i nonzero
        cases read
        exact ⟨n, d, (grouped_integer_iff above n).mp numerator, (grouped_integer_iff below d).mp denominator, nonzero,
          (Rat.divInt_eq_div n d).symm⟩
    · cases read
  · rintro ⟨n, d, numerator, denominator, nonzero, rfl⟩
    simp only [fraction?, (grouped_integer_iff above n).mpr numerator, (grouped_integer_iff below d).mpr denominator,
      if_neg nonzero, Rat.divInt_eq_div]

-- The slash tells the two shapes apart: a decimal has none, and a fraction has the one between its parts.
theorem numeral_of_shape (text : List Char) (value : Rat) (shape : Numeral text value) : numeral? text = some value := by
  cases shape with
  | fraction above below n d numerator denominator nonzero =>
      have whole : '/' ∉ above := fun member => absurd (grouped_chars above n numerator '/' member) (by decide)
      rw [numeral?, cut_before '/' above below whole]
      exact (fraction_iff above below _).mpr ⟨n, d, numerator, denominator, nonzero, rfl⟩
  | decimal sign body factor size signed pointed =>
      have whole : '/' ∉ sign ++ body := by
        intro member
        rcases List.mem_append.mp member with before | after
        · exact absurd (sign_chars sign factor signed '/' before) (by decide)
        · exact absurd (pointed_chars body size pointed '/' after) (by decide)
      rw [numeral?, cut_absent '/' _ whole]
      exact (decimal_iff _ _).mpr ⟨sign, body, factor, size, rfl, signed, pointed, rfl⟩

theorem shape_of_numeral (text : List Char) (value : Rat) (read : numeral? text = some value) : Numeral text value := by
  unfold numeral? at read
  split at read
  · rename_i above below found
    obtain ⟨n, d, numerator, denominator, nonzero, rfl⟩ := (fraction_iff above below value).mp read
    rw [cut_parts '/' text above below found]
    exact .fraction above below n d numerator denominator nonzero
  · obtain ⟨sign, body, factor, size, rfl, signed, pointed, rfl⟩ := (decimal_iff text value).mp read
    exact .decimal sign body factor size signed pointed

-- Everything else is refused.
theorem numerals_are_two_shapes (text : String) :
    (∀ value, numeral? text.toList = some value ↔ Numeral text.toList value) ∧
      (numeral? text.toList = none ↔ ∀ value, ¬ Numeral text.toList value) := by
  have read : ∀ value, numeral? text.toList = some value ↔ Numeral text.toList value := fun value =>
    ⟨shape_of_numeral text.toList value, numeral_of_shape text.toList value⟩
  refine ⟨read, ?_⟩
  rw [Option.eq_none_iff_forall_ne_some]
  exact forall_congr' fun value => not_congr (read value)

-- Groups, signs and points, then a second slash, an exponent, a second sign and a digit of another script.
example : numeral? "-1_0/+4_".toList = some (-5 / 2) ∧ numeral? "-.50".toList = some (-1 / 2) ∧
    numeral? "+7.".toList = some 7 ∧ numeral? "1/2/3".toList = none ∧ numeral? "1e5".toList = none ∧
    numeral? "+-1".toList = none ∧ numeral? "\u0663".toList = none := by decide +kernel

end NormalForm.Decimal
