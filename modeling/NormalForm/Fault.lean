/-!
Contract violations: what a caller may not ask of a game, a profile or a ranking, and the message
for each.
-/

set_option autoImplicit false

namespace NormalForm

inductive Fault where
  -- An index outside a table.
  | bounds
  -- A number that does not fit a machine word.
  | overflow
  -- A table larger than what can be addressed.
  | unaddressable
  | profileLength
  | unknownStrategy (strategy : Nat)
  | unknownStrategyOf (strategy number : Nat)
  | unknownPlayer (player : Nat)
  | unknownCell (index : Nat)
  | foreignOutcome
  | mixedLength
  | stepLength
  | emptyClass
  | memberlessClass
  | misplacedStrategy (strategy : Nat)
  | noClassBelow (rank : Nat)
  | emptyPart
  | foreignMember (rank : Nat)
  | equationCount
  | zeroDenominator
  | tooManyDecimals (limit : Nat)
  | tooManyPlaces
deriving DecidableEq, Repr

namespace Fault

-- An index outside a table and an overflow carry no message of their own.
def message? : Fault → Option String
  | bounds => none
  | overflow => none
  | unaddressable => some "capacity overflow"
  | profileLength => some "profile must name one strategy per player"
  | unknownStrategy strategy => some s!"strategy {strategy} out of range"
  | unknownStrategyOf strategy number =>
      some s!"strategy {strategy} out of range for player {number}"
  | unknownPlayer player => some s!"player {player} out of range"
  | unknownCell index => some s!"profile index {index} out of range"
  | foreignOutcome => some "outcome handle does not belong to this game"
  | mixedLength => some "mixed profile length must equal the total strategy count"
  | stepLength => some "step length mismatch"
  | emptyClass => some "rank classes must be non-empty"
  | memberlessClass => some "rank classes are never empty"
  | misplacedStrategy strategy => some s!"strategy {strategy} placed twice or out of range"
  | noClassBelow rank => some s!"no class below {rank}"
  | emptyPart => some "split must leave both parts non-empty"
  | foreignMember rank => some s!"split members must belong to class {rank}"
  | equationCount => some "one equation per strategy"
  | zeroDenominator => some "payoff denominator must be non-zero"
  | tooManyDecimals limit => some s!"at most {limit} decimals"
  | tooManyPlaces => some "Formatting argument out of range"

end Fault

@[simp]
theorem ok_bind {ε α β : Type} (value : α) (next : α → Except ε β) :
    (Except.ok value >>= next) = next value :=
  rfl

theorem bind_eq_ok {ε α β : Type} {first : Except ε α} {next : α → Except ε β} {result : β} :
    first >>= next = .ok result ↔ ∃ value, first = .ok value ∧ next value = .ok result := by
  cases first with
  | error failure => exact ⟨nofun, nofun⟩
  | ok value => exact ⟨fun run => ⟨value, rfl, run⟩, fun ⟨_, same, run⟩ => Except.ok.inj same ▸ run⟩

def entry {α : Type} (entries : List α) (index : Nat) : Except Fault α :=
  match entries[index]? with
  | some value => .ok value
  | none => .error .bounds

end NormalForm
