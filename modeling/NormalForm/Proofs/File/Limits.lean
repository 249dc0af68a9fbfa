import NormalForm.Proofs.File.Truncation

/-!
How large a game a file can declare. Counts multiply to at most the limit of cells, so that none of them is
above it unless another is zero: a zero hides what it is multiplied with.
-/

set_option autoImplicit false

namespace NormalForm

namespace File

theorem to_game_dimensions (first : Nat) (tokens : List Token) (description : Description)
    (sentence : Sentence tokens description) : (description.toGame first).dimensions = description.dimensions :=
  congrArg (List.map fun player : Player => player.strategies.length)
    (description.to_game_describes first tokens sentence).players

theorem admitted_counts (dims : Dimensions) (admitted : Admitted dims) (some : 0 ∉ dims) :
    ∀ d ∈ dims, d ≤ maxCells := by
  have positive : ∀ d ∈ dims, 0 < d := fun d member => Nat.pos_of_ne_zero fun zero => some (zero ▸ member)
  exact fun d member => (Dimensions.le_count dims positive d member).trans admitted.cells

end File

namespace Game

open File

-- A text that is read declares few enough cells; one that declares more for a player, none of whom is
-- without strategies, is refused with the numbers that it declares.
theorem declared_sizes_are_limited (first : Nat) (text : String) :
    (∀ game, Game.parse first text = .ok game →
      game.cells.size ≤ maxCells ∧ (0 ∉ game.dimensions → ∀ d ∈ game.dimensions, d ≤ maxCells)) ∧
    ∀ tokens dims, Lexes text.toList tokens → Declares tokens dims → 0 ∉ dims → (∃ d ∈ dims, maxCells < d) →
      Game.parse first text = .error (.tooLarge dims maxCells) := by
  constructor
  · intro game read
    obtain ⟨tokens, description, -, sentence, -, rfl⟩ := (parse_iff_sentence first text game).mp read
    have describes := description.to_game_describes first tokens sentence
    have dims := to_game_dimensions first tokens description sentence
    obtain ⟨-, admitted⟩ := sentence_declares tokens description sentence
    refine ⟨?_, ?_⟩
    · rw [describes.cells, dims]
      exact admitted.cells
    · rw [dims]
      exact admitted_counts description.dimensions admitted
  · rintro tokens dims lexes declares some ⟨d, member, large⟩
    obtain ⟨located, scanned, rfl⟩ := (tokenize_iff text tokens).mpr lexes
    have refused : ¬ Admitted dims := fun admitted =>
      absurd (admitted_counts dims admitted some d member) (Nat.not_le.mpr large)
    rw [Game.parse, scanned, ok_bind, read_description_too_large located dims declares refused]
    rfl

theorem parse_counted (first : Nat) (text title : String) (names : List String) (counts : List Nat)
    (values : List Rat) (lexes : Lexes text.toList (countedTokens title names counts values))
    (size : counts.length = names.length) (held : ∀ n ∈ counts, Word.addressable n Dimensions.strategyBytes)
    (admitted : Admitted counts) (paid : values.length = Dimensions.count counts * names.length) :
    ∃ game, Game.parse first text = .ok game ∧ game.dimensions = counts := by
  have words : ∀ n ∈ counts, n < 2 ^ 64 := fun n member => by
    have bytes : n * 40 < 2 ^ 63 := of_decide_eq_true (held n member)
    omega
  have sentence := counted_sentence title names counts values size words admitted paid
  have dims := counted_dimensions title names counts values size
  exact ⟨_, (parse_iff_sentence first text _).mpr ⟨_, _, lexes, sentence, ⟨dims.symm ▸ held, nofun⟩, rfl⟩,
    (to_game_dimensions first _ _ sentence).trans dims⟩

theorem counted_declares (title : String) (names : List String) (counts : List Nat) (values : List Rat)
    (size : counts.length = names.length) (words : ∀ n ∈ counts, n < 2 ^ 64) :
    Declares (countedTokens title names counts values) counts := by
  have whole := Declares.block "R" title names (counts.map numberNames) _ _ (values.map Token.number) (.inl rfl) rfl
    (.counted counts _ (count_series counts words) size)
  rw [number_names_lengths] at whole
  simpa [countedTokens, headerTokens, listTokens, textTokens] using whole

theorem declared_sizes_are_limited_alone :
    (∃ game, Game.parse 0 "NFG 1 R \"t\" \x7b \"a\" \x7d \x7b 1 \x7d 5" = .ok game ∧ game.cells.size ≤ maxCells ∧
      ∀ d ∈ game.dimensions, d ≤ maxCells) ∧
    Game.parse 0 "NFG 1 R \"t\" \x7b \"a\" \x7d \x7b 1048577 \x7d" = .error (.tooLarge [1048577] maxCells) := by
  have smallScanned : tokenize "NFG 1 R \"t\" \x7b \"a\" \x7d \x7b 1 \x7d 5" =
      .ok ((countedTokens "t" ["a"] [1] [5]).map fun token => ⟨token, 1⟩) := by cbv
  have largeScanned : tokenize "NFG 1 R \"t\" \x7b \"a\" \x7d \x7b 1048577 \x7d" =
      .ok ((countedTokens "t" ["a"] [1048577] []).map fun token => ⟨token, 1⟩) := by cbv
  have smallLexes := (tokenize_iff _ (countedTokens "t" ["a"] [1] [5])).mp ⟨_, smallScanned, rfl⟩
  have largeLexes := (tokenize_iff _ (countedTokens "t" ["a"] [1048577] [])).mp ⟨_, largeScanned, rfl⟩
  constructor
  · obtain ⟨game, read, dims⟩ := parse_counted 0 _ "t" ["a"] [1] [5] smallLexes rfl (by decide) ⟨by decide, by decide⟩ rfl
    obtain ⟨cells, counts⟩ := (declared_sizes_are_limited 0 _).1 game read
    exact ⟨game, read, cells, counts (by simp [dims])⟩
  · exact (declared_sizes_are_limited 0 _).2 _ _ largeLexes (counted_declares "t" ["a"] [1048577] [] rfl (by decide))
      (by decide) ⟨1048577, List.mem_cons_self, by decide⟩

-- The count above the limit stands beside a player without strategies.
theorem huge_player_is_read : ∃ game, Game.parse 0 "NFG 1 R \"t\" \x7b \"a\" \"b\" \x7d \x7b 0 1048577 \x7d" = .ok game ∧
    ¬ ∀ d ∈ game.dimensions, d ≤ maxCells := by
  have scanned : tokenize "NFG 1 R \"t\" \x7b \"a\" \"b\" \x7d \x7b 0 1048577 \x7d" =
      .ok ((countedTokens "t" ["a", "b"] [0, 1048577] []).map fun token => ⟨token, 1⟩) := by cbv
  have lexes := (tokenize_iff _ (countedTokens "t" ["a", "b"] [0, 1048577] [])).mp ⟨_, scanned, rfl⟩
  have admitted : Admitted [0, 1048577] := ⟨by decide, by decide⟩
  obtain ⟨game, read, dims⟩ := parse_counted 0 _ "t" ["a", "b"] [0, 1048577] [] lexes rfl (by decide) admitted rfl
  refine ⟨game, read, fun small => ?_⟩
  have beyond : 1048577 ≤ maxCells := small 1048577 (by simp [dims])
  exact absurd beyond (by decide)

end Game

end NormalForm
