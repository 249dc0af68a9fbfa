import NormalForm.Binary64.Scalar
import NormalForm.Proofs.Binary64.Operations
import NormalForm.Proofs.Binary64.Packing

/-!
Bounds on the sizes of binary64 numbers by powers of two, and how arithmetic keeps them. A sum may be
added to for ever by terms that are small beside its bound, and does not exceed it.
-/

set_option autoImplicit false

open Float.Model Float.Model.UnpackedFloat

namespace NormalForm.Binary64

-- A number, and no larger than the power of two.
def AtMost (power : Int) (x : Float) : Prop := ∃ sign size, Holds sign size (parts x) ∧ size ≤ 2 ^ power

-- A positive number, and no smaller than the power of two.
def Reaches (power : Int) (x : Float) : Prop := ∃ size, Holds .positive size (parts x) ∧ 2 ^ power ≤ size

def AtLeast (power : Int) (x : Float) : Prop := parts x = .infinity .positive ∨ Reaches power x

-- A zero of either sign, or a positive number.
def NotNegative (x : Float) : Prop := ∃ sign size, Holds sign size (parts x) ∧ (sign = .positive ∨ size = 0)

/-! Numbers and what is none. -/

theorem holds_finite (sign : Sign) (size : Rat) (result : UnpackedFloat) (holds : Holds sign size result) :
    result.isFinite = true := by
  cases holds with
  | zero => rfl
  | finite => rfl

theorem finite_iff (x : Float) : x.isFinite = true ↔ ∃ sign size, Holds sign size (parts x) := by
  have form := parts_form x
  change (parts x).isFinite = true ↔ _
  generalize parts x = result at form
  constructor
  · intro finite
    cases form with
    | notANumber => cases finite
    | infinity sign => cases finite
    | number sign size _ holds within => exact ⟨sign, size, holds⟩
  · rintro ⟨sign, size, holds⟩
    exact holds_finite sign size result holds

theorem at_most_finite (power : Int) (x : Float) (small : AtMost power x) : x.isFinite = true := by
  obtain ⟨sign, size, holds, -⟩ := small
  exact (finite_iff x).mpr ⟨sign, size, holds⟩

theorem at_most_mono (low high : Int) (le : low ≤ high) (x : Float) (small : AtMost low x) : AtMost high x := by
  obtain ⟨sign, size, holds, bound⟩ := small
  exact ⟨sign, size, holds, bound.trans ((two_pow_le_iff _ _).mpr le)⟩

theorem at_most_of_parts (x : Float) (sign : Sign) (mantissa : Nat) (exponent : Int) (positive : 0 < mantissa)
    (same : parts x = .finite sign mantissa exponent positive) (power : Int) (high : exponent + 53 ≤ power) :
    AtMost power x := by
  have form := parts_form x
  rw [same] at form
  cases form with
  | number sign size _ holds within =>
      cases holds with
      | finite mantissa exponent positive digits low full =>
          have below := scaled_lt_digits mantissa 53 exponent digits
          exact ⟨sign, _, same ▸ .finite mantissa exponent positive digits low full,
            below.le.trans ((two_pow_le_iff _ _).mpr (by omega))⟩

/-! Results that are held. -/

theorem held_at_most (x : Float) (result : UnpackedFloat) (same : parts x = held result) (sign : Sign)
    (size : Rat) (holds : Holds sign size result) (power : Int) (high : power ≤ 1023) (small : size ≤ 2 ^ power) :
    AtMost power x := by
  rcases held_of_holds sign size result holds with ⟨-, kept⟩ | ⟨large, -⟩
  · exact ⟨sign, size, by rwa [same, kept], small⟩
  · have reach := (two_pow_le_iff _ _).mp (large.trans small)
    omega

theorem held_at_least (x : Float) (result : UnpackedFloat) (same : parts x = held result) (size : Rat)
    (holds : Holds .positive size result) (power : Int) (large : 2 ^ power ≤ size) : AtLeast power x := by
  rcases held_of_holds .positive size result holds with ⟨-, kept⟩ | ⟨-, kept⟩
  · exact .inr ⟨size, by rwa [same, kept], large⟩
  · exact .inl (same.trans kept)

/-! Arithmetic. -/

theorem parts_add (x y : Float) : parts (x + y) = held (UnpackedFloat.add Format.binary64 (parts x) (parts y)) := rfl

theorem parts_mul (x y : Float) : parts (x * y) = held (UnpackedFloat.mul Format.binary64 (parts x) (parts y)) := rfl

theorem parts_div (x y : Float) : parts (x / y) = held (UnpackedFloat.div Format.binary64 (parts x) (parts y)) := rfl

theorem parts_sqrt (x : Float) : parts x.sqrt = held (UnpackedFloat.sqrt Format.binary64 (parts x)) := rfl

theorem abs_signed_le (sign : Sign) (size power : Rat) (nonneg : 0 ≤ size) (small : size ≤ power) :
    |signed sign size| ≤ power := (abs_signed sign size nonneg).trans_le small

-- Terms below a quarter of a unit of the bound do not carry a sum past it.
theorem add_at_most (power : Int) (low : -1074 ≤ power) (high : power ≤ 1023) (x y : Float)
    (small : AtMost power x) (smaller : AtMost (power - 54) y) : AtMost power (x + y) := by
  obtain ⟨s, q, first, below⟩ := small
  obtain ⟨t, r, second, below'⟩ := smaller
  obtain ⟨sign, size, holds, rounds, -⟩ := add_holds s t q r _ _ first second
  refine held_at_most _ _ (parts_add x y) sign size holds power high (rounds.atMost power low ?_)
  have nonneg := holds_nonneg s q _ first
  have nonneg' := holds_nonneg t r _ second
  exact (abs_add_le _ _).trans (add_le_add (abs_signed_le s q _ nonneg below) (abs_signed_le t r _ nonneg' below'))

theorem mul_at_most (a b : Int) (low : -1074 ≤ a + b) (high : a + b ≤ 1023) (x y : Float) (first : AtMost a x)
    (second : AtMost b y) : AtMost (a + b) (x * y) := by
  obtain ⟨s, q, first, below⟩ := first
  obtain ⟨t, r, second, below'⟩ := second
  obtain ⟨size, holds, rounds⟩ := mul_holds s t q r _ _ first second
  refine held_at_most _ _ (parts_mul x y) _ size holds (a + b) high (rounds.atMost (a + b) low ?_)
  have product : q * r ≤ 2 ^ a * 2 ^ b := mul_le_mul below below' (holds_nonneg t r _ second) (two_pow_pos a).le
  rw [← two_pow_add] at product
  exact product.trans (le_add_of_nonneg_right (two_pow_pos _).le)

theorem abs_at_most (power : Int) (high : power ≤ 1023) (x : Float) (small : AtMost power x) : AtMost power x.abs := by
  obtain ⟨sign, size, holds, below⟩ := small
  have kept : Holds .positive size (UnpackedFloat.abs (parts x)) := by
    generalize parts x = u at holds
    cases holds with
    | zero => exact .zero
    | finite mantissa exponent positive digits low full => exact .finite mantissa exponent positive digits low full
  exact held_at_most _ _ rfl .positive size kept power high below

theorem div_infinity (s : Sign) (q : Rat) (u : UnpackedFloat) (holds : Holds s q u) :
    UnpackedFloat.div Format.binary64 u (.infinity .positive) = .zero (s / .positive) := by
  cases holds with
  | zero => rfl
  | finite => rfl

theorem div_at_most (a b : Int) (low : -1074 ≤ a - b) (high : a - b ≤ 1023) (x y : Float) (small : AtMost a x)
    (large : AtLeast b y) : AtMost (a - b) (x / y) := by
  obtain ⟨s, q, first, below⟩ := small
  rcases large with infinite | ⟨r, second, above⟩
  · have vanishes : parts (x / y) = held (.zero (s / .positive)) := by
      rw [parts_div, infinite, div_infinity s q _ first]
    exact held_at_most _ _ vanishes _ 0 .zero (a - b) high (two_pow_pos _).le
  · obtain ⟨size, holds, bound⟩ := div_holds s .positive q r _ _ first second a b low below above
    exact held_at_most _ _ (parts_div x y) _ size holds (a - b) high bound

/-! Natural numbers. -/

theorem one_holds : Holds .positive 1 (parts (Float.ofBits 0x3FF0000000000000)) := by
  have same : scaled (2 ^ 52) (-52) = 1 := by
    rw [scaled, Nat.cast_pow, ← zpow_natCast, Nat.cast_ofNat, ← two_pow_add]
    rfl
  have holds : Holds .positive (scaled (2 ^ 52) (-52)) (parts (Float.ofBits 0x3FF0000000000000)) :=
    .finite (2 ^ 52) (-52) (by decide) (by decide) (by decide) (.inl (Nat.le_refl _))
  rwa [same] at holds

theorem one_at_most : AtMost 0 (Arithmetic.one : Float) :=
  ⟨.positive, 1, one_holds, by rw [zpow_zero]⟩

theorem many_digits_eq (n : Nat) (positive : 0 < n) :
    UnpackedFloat.ofScientific Format.binary64 n (Int.ofNat 0) =
      UnpackedFloat.roundWithAccuracy Format.binary64 .positive (n <<< 53) (-53) .exact := by
  have inside : ¬Int.ofNat 0 < -((2 ^ Format.binary64.exponentBits : Int) + n.log2) := by
    change ¬(0 : Int) < -(2048 + n.log2)
    omega
  rw [UnpackedFloat.ofScientific, dif_neg (by omega), if_neg (by decide), if_neg inside, if_pos (by decide)]
  change UnpackedFloat.roundWithAccuracy Format.binary64 .positive (n <<< 53 * 1) (-53) .exact = _
  rw [Nat.mul_one]

-- Whole numbers with few digits are converted and multiplied by one, others are rounded at once.
theorem of_nat_at_least (n : Nat) (positive : 0 < n) : AtLeast 0 (Float.ofNat n) := by
  have whole : (2 : Rat) ^ (0 : Int) ≤ n := by
    rw [zpow_zero]
    exact_mod_cast positive
  change AtLeast 0 (Float.ofScientific n false 0)
  rw [Float.ofScientific]
  split
  · rename_i small
    obtain ⟨size, holds, rounds⟩ := of_nat_holds n
    have word : n.toUInt64.toNat = n := by
      rw [Nat.toUInt64, UInt64.toNat_ofNat']
      omega
    have converted : parts n.toUInt64.toFloat = held (UnpackedFloat.ofNat Format.binary64 n) := by
      change held (UnpackedFloat.ofNat Format.binary64 n.toUInt64.toNat) = _
      rw [word]
    have kept : held (UnpackedFloat.ofNat Format.binary64 n) = UnpackedFloat.ofNat Format.binary64 n := by
      refine (held_of_holds .positive size _ holds).resolve_right ?_ |>.2
      rintro ⟨large, -⟩
      have digits : (n : Rat) ≤ 2 ^ (53 : Int) := by
        rw [zpow_ofNat]
        exact_mod_cast small.1.le
      have below := rounds.atMost 53 (by decide) (digits.trans (le_add_of_nonneg_right (two_pow_pos _).le))
      exact absurd ((two_pow_le_iff _ _).mp (large.trans below)) (by decide)
    rw [← kept, ← converted] at holds
    obtain ⟨product, held, exact⟩ := mul_holds .positive .positive size 1 _ _ holds one_holds
    refine held_at_least _ _ (parts_mul _ _) product held 0 (exact.atLeast 0 (by decide) ?_)
    rw [mul_one]
    exact rounds.atLeast 0 (by decide) whole
  · have fine : (-53 : Int) ≤ max ((-53 : Int) + (n <<< 53).log2 - 52) (-1074) := by
      rw [log2_shift n 53 positive]
      omega
    obtain ⟨size, holds, rounds⟩ := round_exact .positive (n <<< 53) (-53) fine
    have same : scaled (n <<< 53) (-53) = n := by
      refine (scaled_shift n 53 0).trans ?_
      rw [scaled, zpow_zero, mul_one]
    rw [← many_digits_eq n positive] at holds
    rw [same] at rounds
    have converted : parts (Float.ofModel (Float.Model.ofScientific n (Int.ofNat 0))) =
      held (UnpackedFloat.ofScientific Format.binary64 n (Int.ofNat 0)) := rfl
    exact held_at_least _ _ converted size holds 0 (rounds.atLeast 0 (by decide) whole)

/-! A result is a number only if what it is computed from is. -/

theorem held_holds (x : Float) (result : UnpackedFloat) (same : parts x = held result) (sign : Sign) (size : Rat)
    (holds : Holds sign size result) (finite : x.isFinite = true) : Holds sign size (parts x) := by
  rcases held_of_holds sign size result holds with ⟨-, kept⟩ | ⟨-, lost⟩
  · rwa [same, kept]
  · change (parts x).isFinite = true at finite
    rw [same, lost] at finite
    cases finite

theorem finite_of_held (result : UnpackedFloat) (finite : (held result).isFinite = true) :
    result.isFinite = true := by
  cases result with
  | notANumber => cases finite
  | infinity sign =>
      rw [held_infinity] at finite
      cases finite
  | zero sign => rfl
  | finite sign mantissa exponent positive => rfl

theorem unpacked_finite_of_add (u v : UnpackedFloat) (finite : (UnpackedFloat.add Format.binary64 u v).isFinite = true) :
    u.isFinite = true ∧ v.isFinite = true := by
  cases u with
  | notANumber => cases v <;> cases finite
  | infinity s =>
      cases v with
      | infinity t => cases s <;> cases t <;> cases finite
      | _ => cases finite
  | zero s =>
      cases v with
      | notANumber => cases finite
      | infinity t => cases finite
      | _ => exact ⟨rfl, rfl⟩
  | finite s m e positive =>
      cases v with
      | notANumber => cases finite
      | infinity t => cases finite
      | _ => exact ⟨rfl, rfl⟩

theorem finite_of_add (x y : Float) (finite : (x + y).isFinite = true) : x.isFinite = true ∧ y.isFinite = true :=
  unpacked_finite_of_add (parts x) (parts y) (finite_of_held _ finite)

theorem unpacked_finite_of_square (u : UnpackedFloat)
    (finite : (UnpackedFloat.mul Format.binary64 u u).isFinite = true) : u.isFinite = true := by
  cases u with
  | notANumber => cases finite
  | infinity s => cases finite
  | _ => rfl

theorem finite_of_square (x : Float) (finite : (x * x).isFinite = true) : x.isFinite = true :=
  unpacked_finite_of_square (parts x) (finite_of_held _ finite)

theorem unpacked_finite_of_sqrt (u : UnpackedFloat)
    (finite : (UnpackedFloat.sqrt Format.binary64 u).isFinite = true) : u.isFinite = true := by
  cases u with
  | notANumber => cases finite
  | infinity s => cases s <;> cases finite
  | _ => rfl

theorem finite_of_sqrt (x : Float) (finite : x.sqrt.isFinite = true) : x.isFinite = true :=
  unpacked_finite_of_sqrt (parts x) (finite_of_held _ finite)

theorem holds_size (s t : Sign) (q r : Rat) (u : UnpackedFloat) (first : Holds s q u) (second : Holds t r u) :
    q = r := by
  cases first with
  | zero =>
      cases second
      rfl
  | finite =>
      cases second
      rfl

theorem finite_below (x : Float) (sign : Sign) (size : Rat) (holds : Holds sign size (parts x)) :
    size < 2 ^ (1024 : Int) := by
  have form := parts_form x
  generalize parts x = result at form holds
  cases form with
  | notANumber => cases holds
  | infinity sign => cases holds
  | number sign' size' _ holds' within => exact (holds_size _ _ _ _ _ holds holds').trans_lt within

/-! Sums of squares. -/

theorem square_holds (x : Float) (sign : Sign) (size : Rat) (holds : Holds sign size (parts x))
    (finite : (x * x).isFinite = true) :
    ∃ square, Holds .positive square (parts (x * x)) ∧ Rounds (size * size) square := by
  obtain ⟨square, product, rounds⟩ := mul_holds sign sign size size _ _ holds holds
  have upper : sign * sign = .positive := by
    cases sign with
    | negative => rfl
    | positive => rfl
  rw [upper] at product
  exact ⟨square, held_holds _ _ (parts_mul x x) .positive square product finite, rounds⟩

theorem signed_of_not_negative (sign : Sign) (size : Rat) (upper : sign = .positive ∨ size = 0) :
    signed sign size = size := by
  rcases upper with rfl | rfl
  · rfl
  · exact signed_zero sign

theorem add_reaches (x y : Float) (notNegative : NotNegative x) (size : Rat) (holds : Holds .positive size (parts y))
    (finite : (x + y).isFinite = true) :
    NotNegative (x + y) ∧ ∀ power, -1074 ≤ power → Reaches power x ∨ Reaches power y → Reaches power (x + y) := by
  obtain ⟨s, q, first, upper⟩ := notNegative
  obtain ⟨sign, total, sum, rounds, positive⟩ := add_holds s .positive q size _ _ first holds
  rw [positive upper rfl] at sum
  have nonneg := holds_nonneg _ _ _ first
  have nonneg' := holds_nonneg _ _ _ holds
  rw [signed_of_not_negative s q upper, signed_of_not_negative .positive size (.inl rfl),
    abs_of_nonneg (add_nonneg nonneg nonneg')] at rounds
  have held := held_holds _ _ (parts_add x y) .positive total sum finite
  refine ⟨⟨.positive, total, held, .inl rfl⟩, ?_⟩
  intro power low reaches
  refine ⟨total, held, rounds.atLeast power low ?_⟩
  rcases reaches with ⟨part, here, large⟩ | ⟨part, here, large⟩
  · rw [holds_size _ _ _ _ _ here first] at large
    exact large.trans (le_add_of_nonneg_right nonneg')
  · rw [holds_size _ _ _ _ _ here holds] at large
    exact large.trans (le_add_of_nonneg_left nonneg)

theorem finite_of_sum (values : List Float) (start : Float)
    (finite : (values.foldl (· + ·) start).isFinite = true) :
    start.isFinite = true ∧ ∀ x ∈ values, x.isFinite = true := by
  induction values generalizing start with
  | nil => exact ⟨finite, by simp⟩
  | cons x rest ih =>
      obtain ⟨partly, later⟩ := ih (start + x) finite
      obtain ⟨before, here⟩ := finite_of_add start x partly
      exact ⟨before, List.forall_mem_cons.mpr ⟨here, later⟩⟩

-- A sum of squares that is a number reaches what any of the squares reaches.
theorem sum_squares_reaches (values : List Float) (start : Float) (notNegative : NotNegative start)
    (finite : ((values.map fun x => x * x).foldl (· + ·) start).isFinite = true) :
    NotNegative ((values.map fun x => x * x).foldl (· + ·) start) ∧
      ∀ power, -1074 ≤ power → Reaches power start ∨ (∃ x ∈ values, Reaches power (x * x)) →
        Reaches power ((values.map fun x => x * x).foldl (· + ·) start) := by
  induction values generalizing start with
  | nil => exact ⟨notNegative, fun power low reaches => reaches.resolve_right (by simp)⟩
  | cons x rest ih =>
      obtain ⟨partly, -⟩ := finite_of_sum _ (start + x * x) finite
      obtain ⟨-, square⟩ := finite_of_add start (x * x) partly
      obtain ⟨sign, size, holds⟩ := (finite_iff x).mp (finite_of_square x square)
      obtain ⟨product, held, -⟩ := square_holds x sign size holds square
      obtain ⟨upper, grows⟩ := add_reaches start (x * x) notNegative product held partly
      obtain ⟨total, reaches⟩ := ih (start + x * x) upper finite
      refine ⟨total, fun power low some => reaches power low ?_⟩
      rcases some with before | ⟨y, member, reached⟩
      · exact .inl (grows power low (.inl before))
      · rcases List.mem_cons.mp member with rfl | later
        · exact .inl (grows power low (.inr reached))
        · exact .inr ⟨y, later, reached⟩

end NormalForm.Binary64
