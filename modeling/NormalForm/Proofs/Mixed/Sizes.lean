import NormalForm.Proofs.Binary64.Sizes
import NormalForm.Proofs.Mixed.Walk

/-!
Expected payoffs in floating point are bounded by the payoffs, however many terms are added: with
probabilities of at most one, no expectation overflows unless the payoffs come close to doing so.
-/

set_option autoImplicit false

namespace NormalForm

open Binary64

namespace Mixed

-- The factors of a weight are probabilities of the profile.
theorem free_factors_listed {α : Type} (profile : Mixed α) (place : Nat) (choices : List (Option Nat))
    (strategies : List Nat) (factors : List α) (run : profile.freeFactors place choices strategies = .ok factors) :
    ∀ factor ∈ factors, factor ∈ profile.probabilities := by
  induction choices generalizing place strategies factors with
  | nil =>
      cases run
      simp
  | cons choice rest ih =>
      cases strategies with
      | nil =>
          cases choice <;> cases run <;> simp
      | cons strategy others =>
          cases choice with
          | some held => exact ih _ _ _ run
          | none =>
              obtain ⟨factor, read, run⟩ := bind_eq_ok.mp run
              obtain ⟨later, tail, run⟩ := bind_eq_ok.mp run
              cases run
              refine List.forall_mem_cons.mpr ⟨?_, ih _ _ _ tail⟩
              rw [probability] at read
              split at read
              · exact List.mem_of_getElem? ((entry_eq_ok _ _ _).mp read)
              · cases read

theorem product_at_most (factors : List Float) (start : Float) (small : AtMost 0 start)
    (each : ∀ factor ∈ factors, AtMost 0 factor) : AtMost 0 (factors.foldl (· * ·) start) := by
  induction factors generalizing start with
  | nil => exact small
  | cons factor rest ih =>
      obtain ⟨here, later⟩ := List.forall_mem_cons.mp each
      exact ih (start * factor) (mul_at_most 0 0 (by decide) (by decide) start factor small here) later

theorem sum_at_most (power : Int) (low : -1020 ≤ power) (high : power ≤ 969) (terms : List Float) (start : Float)
    (small : AtMost (power + 54) start) (each : ∀ term ∈ terms, AtMost power term) :
    AtMost (power + 54) (terms.foldl (· + ·) start) := by
  induction terms generalizing start with
  | nil => exact small
  | cons term rest ih =>
      obtain ⟨here, later⟩ := List.forall_mem_cons.mp each
      refine ih (start + term) (add_at_most _ (by omega) (by omega) start term small ?_) later
      rwa [Int.add_sub_cancel]

theorem largest_at_most (power : Int) (values : List Float) (each : ∀ value ∈ values, AtMost power value) :
    AtMost power (Arithmetic.largest values) := by
  suffices general : ∀ start, AtMost power start → AtMost power (values.foldl Arithmetic.max start) from
    general _ ⟨.positive, 0, .zero, (two_pow_pos power).le⟩
  induction values with
  | nil => exact fun start small => small
  | cons value rest ih =>
      obtain ⟨here, later⟩ := List.forall_mem_cons.mp each
      intro start small
      refine ih later _ ?_
      rw [Arithmetic.max]
      split
      · exact here
      · exact small

theorem uniform_at_most (table : PayoffTable Float) (strategies : ∀ d ∈ table.dims, 0 < d) :
    ∀ p ∈ (uniform table).probabilities, AtMost 0 p := by
  intro p member
  rw [uniform, List.mem_flatMap] at member
  obtain ⟨count, listed, member⟩ := member
  rw [List.eq_of_mem_replicate member]
  exact div_at_most 0 0 (by decide) (by decide) Arithmetic.one (Arithmetic.ofNat count) one_at_most
    (of_nat_at_least count (strategies count listed))

variable (profile : Mixed Float) (player : Nat) (power : Int) (low : -1020 ≤ power) (high : power ≤ 969)
  (shares : ∀ p ∈ profile.probabilities, AtMost 0 p)
  (payoffs : ∀ index payoff, profile.table.payoff index player = .ok payoff → AtMost power payoff)

include low high shares payoffs

theorem term_at_most (choices : List (Option Nat)) (strategies : List Nat) (value : Float)
    (run : profile.term player choices strategies = .ok value) : AtMost power value := by
  obtain ⟨weight, weighed, run⟩ := bind_eq_ok.mp run
  split at run
  · cases run
    exact ⟨.positive, 0, .zero, (two_pow_pos power).le⟩
  · obtain ⟨payoff, paid, run⟩ := bind_eq_ok.mp run
    cases run
    obtain ⟨factors, listed, weighed⟩ := bind_eq_ok.mp weighed
    cases weighed
    have part := product_at_most factors Arithmetic.one one_at_most fun factor member =>
      shares factor (free_factors_listed profile 0 _ _ _ listed factor member)
    have product := mul_at_most 0 power (by omega) (by omega) _ payoff part (payoffs _ payoff paid)
    rwa [Int.zero_add] at product

theorem conditional_at_most (fixed : List (Nat × Nat)) (value : Float)
    (run : profile.conditional player fixed = .ok value) : AtMost (power + 54) value := by
  rw [conditional_eq] at run
  obtain ⟨choices, -, run⟩ := bind_eq_ok.mp run
  obtain ⟨terms, listed, run⟩ := bind_eq_ok.mp run
  cases run
  have each := map_m_each _ _ _ listed
  refine sum_at_most power low high terms _ ⟨.negative, 0, .zero, (two_pow_pos _).le⟩ fun term member => ?_
  obtain ⟨strategies, -, here⟩ := forall₂_source _ _ each term member
  exact term_at_most profile player power low high shares payoffs choices strategies term here

end Mixed

end NormalForm
