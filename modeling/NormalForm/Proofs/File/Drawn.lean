import Mathlib.Algebra.Order.Field.Rat
import Mathlib.Tactic.Positivity
import NormalForm.Game.Random
import NormalForm.Proofs.Decimal.Forms
import NormalForm.Proofs.File.Tables
import NormalForm.Proofs.Random.Draws

/-!
Random games and their files. Every payoff is a draw over the power of ten, so that its numeral never needs a
fraction with as many places, and the file is read as the game that was drawn.
-/

set_option autoImplicit false

namespace NormalForm

open NormalForm.Random

/-! Numerals of decimals. -/

namespace Decimal

-- An integer, or a decimal of at most so many places; not a fraction.
structure Unfractioned (value : Rat) (places : Nat) (text : List Char) : Prop where
  form : (∃ n : Int, value = n ∧ text = (toString n).toList) ∨ PointForm value places text
  slashless : '/' ∉ text

theorem point_form_slashless (value : Rat) (places : Nat) (text : List Char) (form : PointForm value places text) :
    '/' ∉ text := by
  obtain ⟨whole, fraction, rfl, plain, -, -, digits, -⟩ := form
  have sign : '/' ∉ (if value < 0 then ['-'] else []) := by
    split
    · decide
    · exact List.not_mem_nil
  have absent (text : List Char) (all : ∀ c ∈ text, isDigit c = true) : '/' ∉ text := fun slash =>
    absurd (all '/' slash) (by decide)
  simp only [List.mem_append, List.mem_cons, not_or]
  exact ⟨⟨sign, absent whole plain.digits⟩, by decide, absent fraction digits⟩

-- A number that becomes an integer when it is scaled needs no fraction.
theorem grid_numeral (value : Rat) (places : Nat) (within : places ≤ maxPlaces) (grid : ∃ n : Int, value * 10 ^ places = n)
    (text : List Char) (written : numeral value places = .ok text) : Unfractioned value places text := by
  have finite := (is_decimal_iff value places).mpr grid
  rw [numeral_branches value places within] at written
  cases written
  by_cases whole : value.den = 1
  · rw [if_pos whole]
    have same : value = value.num := (Rat.coe_int_num_of_den_eq_one whole).symm
    exact ⟨.inl ⟨value.num, same, (to_list_integer value.num).symm⟩, slash_not_in_integer value.num⟩
  · rw [if_neg whole, if_pos finite]
    have form := decimal_point_form value places whole finite
    exact ⟨.inr form, point_form_slashless value places _ form⟩

end Decimal

/-! Payoffs in the text of a game. -/

namespace File

def outcomeLine (label : String) (payoffs : List String) : String :=
  "\x7b " ++ Text.quote label ++ " " ++ String.intercalate ", " payoffs ++ " \x7d\n"

-- The text of a game in which the payoffs of all outcomes stand in some form.
def Shows (game : Game) (text : String) (Form : Rat → String → Prop) : Prop :=
  ∃ shown, text = String.join (headPieces game ++
      List.zipWith outcomeLine (game.outcomes.toList.map Outcome.label) shown ++ cellPieces game) ∧
    List.Forall₂ (fun outcome numerals => List.Forall₂ Form outcome.payoffs numerals) game.outcomes.toList shown

theorem outcome_piece_shows (places : Nat) (outcome : Outcome) (piece : String)
    (written : outcomePiece places outcome = .ok piece) : ∃ numerals, piece = outcomeLine outcome.label numerals ∧
      List.Forall₂ (fun value numeral => payoffText places value = .ok numeral) outcome.payoffs numerals := by
  obtain ⟨numerals, run, finish⟩ := bind_eq_ok.mp written
  cases finish
  exact ⟨numerals, rfl, map_m_each outcome.payoffs (payoffText places) numerals run⟩

theorem lines_show (places : Nat) (outcomes : List Outcome) (pieces : List String)
    (written : List.Forall₂ (fun outcome piece => outcomePiece places outcome = .ok piece) outcomes pieces) :
    ∃ shown, pieces = List.zipWith outcomeLine (outcomes.map Outcome.label) shown ∧
      List.Forall₂ (fun outcome numerals =>
        List.Forall₂ (fun value numeral => payoffText places value = .ok numeral) outcome.payoffs numerals)
          outcomes shown := by
  induction written with
  | nil => exact ⟨[], rfl, .nil⟩
  | cons here _ ih =>
      obtain ⟨numerals, rfl, first⟩ := outcome_piece_shows places _ _ here
      obtain ⟨shown, rfl, later⟩ := ih
      exact ⟨numerals :: shown, rfl, .cons first later⟩

theorem text_shows (places : Nat) (game : Game) (text : String) (written : game.toText places = .ok text) :
    Shows game text fun value numeral => payoffText places value = .ok numeral := by
  rw [Game.toText, pieces_eq] at written
  obtain ⟨all, run, finish⟩ := bind_eq_ok.mp written
  obtain ⟨pieces, made, same⟩ := bind_eq_ok.mp run
  cases same
  cases finish
  obtain ⟨shown, rfl, payoffs⟩ := lines_show places _ pieces (map_m_each _ _ pieces made)
  exact ⟨shown, rfl, payoffs⟩

theorem shows_each (game : Game) (text : String) (Form Other : Rat → String → Prop) (Kind : Rat → Prop)
    (shows : Shows game text Form) (kind : ∀ outcome ∈ game.outcomes.toList, ∀ value ∈ outcome.payoffs, Kind value)
    (each : ∀ value numeral, Kind value → Form value numeral → Other value numeral) : Shows game text Other := by
  obtain ⟨shown, same, all⟩ := shows
  refine ⟨shown, same, ((List.forall₂_and_left _ _).mpr ⟨kind, all⟩).imp ?_⟩
  rintro outcome numerals ⟨kinds, here⟩
  exact ((List.forall₂_and_left _ _).mpr ⟨kinds, here⟩).imp fun value numeral both =>
    each value numeral both.1 both.2

theorem payoff_text_unfractioned (places : Nat) (within : places ≤ Decimal.maxPlaces) (value : Rat) (numeral : String)
    (grid : ∃ n : Int, value * 10 ^ places = n) (written : payoffText places value = .ok numeral) :
    Decimal.Unfractioned value places numeral.toList := by
  rw [payoffText] at written
  cases run : Decimal.numeral value places with
  | error fault =>
      rw [run] at written
      cases written
  | ok text =>
      rw [run] at written
      cases written
      rw [String.toList_ofList]
      exact Decimal.grid_numeral value places within grid text run

end File

namespace Game

open File

/-! Games with a row of payoffs for each cell. -/

theorem tabulates_well_formed (game : Game) (first : Nat) (dims : Dimensions) (rows : List (List Rat))
    (counted : dims.count?.isSome) (shaped : Shaped dims rows) (tabulates : game.Tabulates first dims rows) :
    game.WellFormed := by
  have listed : game.cells.size = dims.count := by
    rw [tabulates.cells, List.size_toArray, List.length_map, List.length_range]
  refine ⟨tabulates.dimensions ▸ counted, tabulates.dimensions.symm ▸ listed, ?_, ?_⟩
  · intro index place cell
    rw [tabulates.cells, List.getElem?_toArray, List.getElem?_map] at cell
    obtain ⟨other, inside, same⟩ := Option.map_eq_some_iff.mp cell
    obtain rfl : other = place := Option.some.inj same
    have below : other < rows.length := by
      obtain ⟨range, here⟩ := List.getElem?_eq_some_iff.mp inside
      rw [List.getElem_range] at here
      rw [List.length_range] at range
      rw [shaped.cells, ← here]
      exact range
    have outcome := tabulates.outcomes other
    rw [List.getElem?_eq_getElem below] at outcome
    exact (Array.getElem?_eq_some_iff.mp outcome).1
  · intro place outcome found
    rw [tabulates.outcomes] at found
    obtain ⟨row, known, rfl⟩ := Option.map_eq_some_iff.mp found
    have width := shaped.players row (List.mem_of_getElem? known)
    rw [tabulates.dimensions]
    exact ⟨rfl, width, (List.length_map _).trans width⟩

/-! Drawn payoffs. -/

-- The payoff that the draw with this number gives.
def drawnPayoff (seed : UInt64) (places number : Nat) : Rat :=
  ((Generator.ofSeed seed).draw (10 ^ places).toUInt64 number : Rat) / 10 ^ places

def drawnRows (dims : Dimensions) (seed : UInt64) (places : Nat) : List (List Rat) :=
  (List.range dims.count).map fun index =>
    (List.range dims.length).map fun player => drawnPayoff seed places (index * dims.length + player)

theorem drawn_rows_shaped (dims : Dimensions) (seed : UInt64) (places : Nat) :
    Shaped dims (drawnRows dims seed places) := by
  refine ⟨by rw [drawnRows, List.length_map, List.length_range], List.forall_mem_map.mpr fun index _ => ?_⟩
  rw [List.length_map, List.length_range]

theorem tabulates_size (game : Game) (first : Nat) (dims : Dimensions) (rows : List (List Rat))
    (shaped : Shaped dims rows) (tabulates : game.Tabulates first dims rows) : game.outcomes.size ≤ dims.count := by
  by_contra more
  have extra := tabulates.outcomes dims.count
  rw [List.getElem?_eq_none (Nat.le_of_eq shaped.cells), Option.map_none, Array.getElem?_eq_none_iff] at extra
  exact more extra

theorem scale_to_nat (places : Nat) (within : places ≤ 18) : (10 ^ places).toUInt64.toNat = 10 ^ places := by
  have small : 10 ^ places ≤ 10 ^ 18 := Nat.pow_le_pow_right (by decide) within
  rw [Nat.toUInt64_eq, UInt64.toNat_ofNat']
  exact Nat.mod_eq_of_lt (by omega)

theorem draw_below_scale (places : Nat) (within : places ≤ 18) (g : Generator) :
    (g.below (10 ^ places).toUInt64).1 < 10 ^ places := by
  have scale := scale_to_nat places within
  have below := g.below_lt (10 ^ places).toUInt64 (by rw [scale]; exact Nat.pow_pos (by decide))
  rwa [scale] at below

theorem drawn_payoff_grid (seed : UInt64) (places number : Nat) (within : places ≤ 18) :
    0 ≤ drawnPayoff seed places number ∧ drawnPayoff seed places number < 1 ∧
      ∃ n : Int, drawnPayoff seed places number * 10 ^ places = n := by
  have power : (0 : Rat) < 10 ^ places := by positivity
  have below := draw_below_scale places within ((Generator.ofSeed seed).after (10 ^ places).toUInt64 number)
  refine ⟨by unfold drawnPayoff; positivity, ?_, _, div_mul_cancel₀ _ power.ne'⟩
  rw [drawnPayoff, div_lt_one power]
  exact_mod_cast below

-- The table of draws holds one draw for each payoff.
theorem table_drawn (dims : Dimensions) (seed : UInt64) (places index player : Nat) (inside : index < dims.count)
    (known : player < dims.length) :
    mkRat (((Generator.ofSeed seed).draws (10 ^ places).toUInt64 (dims.count * dims.length)).toArray.getD
      (index * dims.length + player) 0) (10 ^ places) = drawnPayoff seed places (index * dims.length + player) := by
  have place : index * dims.length + player < dims.count * dims.length := by
    have row := Nat.mul_le_mul_right dims.length (Nat.succ_le_of_lt inside)
    rw [Nat.succ_mul] at row
    omega
  have drawn := (Generator.ofSeed seed).draws_at (10 ^ places).toUInt64 _ _ place
  rw [Array.getD_eq_getD_getElem?, List.getElem?_toArray, drawn, Option.getD_some, Rat.mkRat_eq_div, drawnPayoff]
  push_cast
  rfl

theorem random_tabled (first : Nat) (dims : Dimensions) (seed : UInt64) (places : Nat) (within : places ≤ 18)
    (counted : dims.count?.isSome) : random first dims seed places =
      .ok (((blank dims).setTitle s!"Random game (seed {seed})").tabled first (drawnRows dims seed places)) := by
  have size : (blank dims).cells.size = dims.count := Array.size_replicate
  have titled : ((blank dims).setTitle s!"Random game (seed {seed})").cells.size = dims.count := size
  have rows : (List.range dims.count).map (fun index => ("", (List.range dims.length).map fun player =>
      mkRat (((Generator.ofSeed seed).draws (10 ^ places).toUInt64 (dims.count * dims.length)).toArray.getD
        (index * dims.length + player) 0) (10 ^ places))) = (drawnRows dims seed places).map (Prod.mk "") := by
    rw [drawnRows, List.map_map]
    refine List.map_congr_left fun index inside => congrArg (Prod.mk "") (List.map_congr_left fun player known => ?_)
    exact table_drawn dims seed places index player (List.mem_range.mp inside) (List.mem_range.mp known)
  have length : (drawnRows dims seed places).length = dims.count := (drawn_rows_shaped dims seed places).cells
  have few : ¬ maxRandomPlaces < places := Nat.not_lt.mpr within
  rw [random, if_neg few, of_dimensions_counted dims counted, ok_bind]
  dsimp only
  rw [Description.fill_all _ rfl, titled, size, Nat.pow_eq, rows, tabled, length]
  rfl

theorem random_succeeds_iff (first : Nat) (dims : Dimensions) (seed : UInt64) (places : Nat) (within : places ≤ 18) :
    (∃ game, random first dims seed places = .ok game) ↔ dims.count?.isSome := by
  constructor
  · rintro ⟨game, made⟩
    have few : ¬ maxRandomPlaces < places := Nat.not_lt.mpr within
    rw [random, if_neg few] at made
    obtain ⟨blank, sized, -⟩ := bind_eq_ok.mp made
    exact (of_dimensions_ok dims blank sized).1
  · intro counted
    exact ⟨_, random_tabled first dims seed places within counted⟩

theorem random_ok (first : Nat) (dims : Dimensions) (seed : UInt64) (places : Nat) (within : places ≤ 18)
    (game : Game) (made : random first dims seed places = .ok game) : dims.count?.isSome ∧
      game = ((blank dims).setTitle s!"Random game (seed {seed})").tabled first (drawnRows dims seed places) := by
  have counted := (random_succeeds_iff first dims seed places within).mp ⟨game, made⟩
  cases (random_tabled first dims seed places within counted).symm.trans made
  exact ⟨counted, rfl⟩

theorem random_well_formed (first : Nat) (dims : Dimensions) (seed : UInt64) (places : Nat) (within : places ≤ 18)
    (counted : dims.count?.isSome) : ∃ game, random first dims seed places = .ok game ∧ game.WellFormed := by
  have shaped := drawn_rows_shaped dims seed places
  have tabulates := tabled_tabulates ((blank dims).setTitle s!"Random game (seed {seed})") first _ dims rfl
    (blank_strategies dims) shaped
  exact ⟨_, random_tabled first dims seed places within counted,
    tabulates_well_formed _ first dims _ counted shaped tabulates⟩

theorem drawn_payoff_at (frame : Game) (none : frame.outcomes = #[]) (first : Nat) (dims : Dimensions) (seed : UInt64)
    (places index player : Nat) (inside : index < dims.count) (known : player < dims.length) :
    (frame.tabled first (drawnRows dims seed places)).payoffAt index player =
      .ok (drawnPayoff seed places (index * dims.length + player)) := by
  have shaped := drawn_rows_shaped dims seed places
  have row : index < (drawnRows dims seed places).length := shaped.cells ▸ inside
  have column : player < (drawnRows dims seed places)[index].length :=
    shaped.players _ (List.getElem_mem row) ▸ known
  rw [frame.tabled_payoff first _ none index player row column]
  simp [drawnRows]

theorem drawn_payoffs_grid (game : Game) (first : Nat) (dims : Dimensions) (seed : UInt64) (places : Nat)
    (within : places ≤ 18) (tabulates : game.Tabulates first dims (drawnRows dims seed places)) :
    ∀ outcome ∈ game.outcomes.toList, ∀ value ∈ outcome.payoffs, ∃ n : Int, value * 10 ^ places = n := by
  intro outcome listed value paid
  obtain ⟨place, found⟩ := List.mem_iff_getElem?.mp listed
  rw [Array.getElem?_toList, tabulates.outcomes] at found
  obtain ⟨row, known, rfl⟩ := Option.map_eq_some_iff.mp found
  obtain ⟨index, -, rfl⟩ := List.mem_map.mp (List.mem_of_getElem? known)
  obtain ⟨player, -, rfl⟩ := List.mem_map.mp paid
  exact (drawn_payoff_grid seed places _ within).2.2

theorem well_formed_restored (game : Game) (valid : game.WellFormed) (small : game.cells.size ≤ maxCells)
    (fits : Word.fits game.outcomes.size) (places : Nat) (within : places ≤ Decimal.maxPlaces) :
    ∃ text, game.toText places = .ok text ∧ ∀ first, ∃ back, Game.parse first text = .ok back ∧ back.Restores game := by
  obtain ⟨text, written, yields⟩ := to_text_yields places within game
  obtain ⟨located, tokens, same⟩ := tokenize_yields text (fileTokens game) yields
  have described := read_description_reads game valid small fits located same
  refine ⟨text, written, fun first => ⟨(describe game).toGame first, ?_, describe_restores game valid first⟩⟩
  rw [Game.parse, tokens, ok_bind, described]
  rfl

-- The generator may correct a draw by one, and still it stays below the scale.
theorem random_payoffs_on_grid (dims : Dimensions) (seed : UInt64) (places : Nat) (within : places ≤ 18) :
    (∀ g : Generator, (g.below (10 ^ places).toUInt64).1 < 10 ^ places) ∧
    ∀ first, ((∃ game, random first dims seed places = .ok game) ↔ dims.count?.isSome) ∧
      ∀ game, random first dims seed places = .ok game → game.dimensions = dims ∧
        (∀ index < dims.count, ∀ player < dims.length, ∃ value, game.payoffAt index player = .ok value ∧
          value = ((Generator.ofSeed seed).draw (10 ^ places).toUInt64 (index * dims.length + player) : Rat) /
            10 ^ places ∧ 0 ≤ value ∧ value < 1) ∧
        (dims.count ≤ 2 ^ 20 → ∃ text, game.toText places = .ok text ∧
          Shows game text (fun value numeral => Decimal.Unfractioned value places numeral.toList) ∧
          ∀ other, ∃ back, Game.parse other text = .ok back ∧ back.Restores game) := by
  refine ⟨draw_below_scale places within, fun first => ⟨random_succeeds_iff first dims seed places within, ?_⟩⟩
  intro game made
  obtain ⟨counted, rfl⟩ := random_ok first dims seed places within game made
  have shaped := drawn_rows_shaped dims seed places
  have tabulates := tabled_tabulates ((blank dims).setTitle s!"Random game (seed {seed})") first _ dims rfl
    (blank_strategies dims) shaped
  have limited : places ≤ Decimal.maxPlaces := within.trans (by decide)
  refine ⟨tabulates.dimensions, ?_, fun small => ?_⟩
  · intro index inside player known
    obtain ⟨least, below, -⟩ := drawn_payoff_grid seed places (index * dims.length + player) within
    exact ⟨_, drawn_payoff_at _ rfl first dims seed places index player inside known, rfl, least, below⟩
  · obtain ⟨other, again, valid⟩ := random_well_formed first dims seed places within counted
    obtain rfl := Except.ok.inj (made.symm.trans again)
    have cells := valid.cells
    rw [tabulates.dimensions] at cells
    have size := tabulates_size _ first dims _ shaped tabulates
    have fits : Word.fits (((blank dims).setTitle s!"Random game (seed {seed})").tabled first
        (drawnRows dims seed places)).outcomes.size := by
      refine decide_eq_true (Nat.lt_of_le_of_lt (size.trans small) ?_)
      rw [Word.size, Nat.pow_eq]
      decide
    obtain ⟨text, written, back⟩ := well_formed_restored _ valid (cells ▸ small) fits places limited
    have shows := shows_each _ text _ _ _ (text_shows places _ text written)
      (drawn_payoffs_grid _ first dims seed places within tabulates)
      (payoff_text_unfractioned places limited)
    exact ⟨text, written, shows, back⟩

-- The first draw of this seed is corrected: the high half of the product is one less.
theorem random_payoffs_on_grid_corrected : 18 ≤ 18 ∧
    (Generator.wideProduct (Generator.ofSeed 12).next.1 (10 ^ 18).toUInt64).1 = 577474383870240980 ∧
    ∃ game text back, random 0 [1] 12 18 = .ok game ∧
      game.payoffAt 0 0 = .ok (577474383870240981 / 10 ^ 18) ∧ game.toText 18 = .ok text ∧
      Game.parse 5 text = .ok back ∧ back.Restores game := by
  obtain ⟨-, games⟩ := random_payoffs_on_grid [1] 12 18 (Nat.le_refl 18)
  obtain ⟨made, drawn⟩ := games 0
  obtain ⟨game, drawing⟩ := made.mpr (by decide)
  obtain ⟨-, payoffs, file⟩ := drawn game drawing
  obtain ⟨value, paid, rfl, -⟩ := payoffs 0 (by decide) 0 (by decide)
  obtain ⟨text, written, -, reads⟩ := file (by decide)
  obtain ⟨back, read, restores⟩ := reads 5
  have first : (Generator.ofSeed 12).draw (10 ^ 18).toUInt64 (0 * [1].length + 0) = 577474383870240981 := by
    decide +kernel
  rw [first] at paid
  exact ⟨Nat.le_refl 18, by decide +kernel, game, text, back, drawing, paid, written, read, restores⟩

end Game

end NormalForm
