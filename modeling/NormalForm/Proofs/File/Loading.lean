import Mathlib.Data.List.Induction
import NormalForm.File.Reader

/-!
Outcomes of a game that is loaded, from a list or cell by cell: they stand in the order of the list, with
handles and numbers by their place.
-/

set_option autoImplicit false

namespace NormalForm.File.Description

theorem add_listed_frame (listed : List (String × List Rat)) (game : Game) (first : Nat) :
    (addListed game first listed).title = game.title ∧
      (addListed game first listed).comment = game.comment ∧
      (addListed game first listed).players = game.players ∧
      (addListed game first listed).refreshedAt = game.refreshedAt := by
  induction listed generalizing game first with
  | nil => exact ⟨rfl, rfl, rfl, rfl⟩
  | cons entry listed ih => exact ih (game.addOutcome ⟨first⟩ entry.1 entry.2) (first + 1)

-- The outcome at a place; handles and numbers go with the place.
def placed (first : Nat) (entry : (String × List Rat) × Nat) : Outcome :=
  .ofPayoffs ⟨first + entry.2⟩ (entry.2 + 1) entry.1.1 entry.1.2

theorem add_listed_snoc (game : Game) (first : Nat) (listed : List (String × List Rat)) (entry : String × List Rat) :
    addListed game first (listed ++ [entry]) =
      (addListed game first listed).addOutcome ⟨first + listed.length⟩ entry.1 entry.2 := by
  induction listed generalizing game first with
  | nil => rfl
  | cons head listed ih =>
      rw [List.cons_append, addListed, ih, List.length_cons, Nat.add_assoc, Nat.add_comm 1]
      rfl

theorem add_listed_placed (game : Game) (none : game.outcomes = #[]) (first : Nat)
    (listed : List (String × List Rat)) :
    (addListed game first listed).outcomes = (listed.zipIdx.map (placed first)).toArray := by
  induction listed using List.reverseRecOn with
  | nil => exact none
  | append_singleton listed entry ih =>
      have size : (addListed game first listed).outcomes.size = listed.length := by simp [ih]
      rw [add_listed_snoc, Game.addOutcome, size, ih, List.zipIdx_append, List.map_append]
      simp [placed]

theorem add_listed_revision (game : Game) (first players : Nat) (listed : List (String × List Rat))
    (paid : ∀ entry ∈ listed, entry.2.length = players) :
    (addListed game first listed).revision = game.revision + listed.length * (1 + players) := by
  induction listed generalizing game first with
  | nil => exact (Nat.add_zero _).symm.trans (congrArg _ (Nat.zero_mul _).symm)
  | cons entry listed ih =>
      obtain ⟨here, others⟩ := List.forall_mem_cons.mp paid
      have next : (game.addOutcome ⟨first⟩ entry.1 entry.2).revision = game.revision + (1 + players) := by
        rw [← here, ← Nat.add_assoc]
        rfl
      rw [addListed, ih _ (first + 1) others, next, List.length_cons, Nat.succ_mul]
      omega

theorem stored_next (cells : List (Option Nat)) (count : Nat) (inside : count < cells.length) :
    ((List.range count).map some ++ cells.drop count).set count (some count) =
      (List.range (count + 1)).map some ++ cells.drop (count + 1) := by
  have length : ((List.range count).map some).length = count := by simp
  rw [List.drop_eq_getElem_cons inside, List.set_append_right _ _ (Nat.le_of_eq length), length, Nat.sub_self,
    List.set_cons_zero, List.range_succ, List.map_append, List.append_assoc]
  rfl

-- Filling the cells one by one adds one outcome for each.
theorem fill_cells (game : Game) (none : game.outcomes = #[]) (first : Nat) (payoffs : Nat → List Rat)
    (count : Nat) (inside : count ≤ game.cells.size) :
    (List.range count).foldl (Game.fillCell first payoffs) game =
      { addListed game first ((List.range count).map fun index => ("", payoffs index)) with
        cells := ((List.range count).map some ++ game.cells.toList.drop count).toArray } := by
  induction count with
  | zero => rfl
  | succ count ih =>
      have before := ih (Nat.le_of_succ_le inside)
      have length : ((List.range count).map fun index => ("", payoffs index)).length = count := by simp
      have size : (addListed game first ((List.range count).map fun index => ("", payoffs index))).outcomes.size =
          count := by
        simp [add_listed_placed game none]
      have stored := stored_next game.cells.toList count inside
      rw [List.range_succ, List.foldl_append, before, List.map_append, List.map_singleton, add_listed_snoc, length,
        ← List.range_succ, ← stored, List.foldl_cons, List.foldl_nil, Game.fillCell]
      simp only [Game.addOutcome, size, List.setIfInBounds_toArray]

theorem fill_all (game : Game) (none : game.outcomes = #[]) (first : Nat) (payoffs : Nat → List Rat) :
    game.fill first payoffs =
      { addListed game first ((List.range game.cells.size).map fun index => ("", payoffs index)) with
        cells := ((List.range game.cells.size).map some).toArray } := by
  have all := fill_cells game none first payoffs game.cells.size (Nat.le_refl _)
  rw [List.drop_eq_nil_of_le (Nat.le_of_eq Array.length_toList), List.append_nil] at all
  exact all

theorem row_eq (values : List Rat) (players index cells : Nat) (size : values.length = cells * players)
    (inside : index < cells) :
    ((List.range players).map fun player => values.toArray.getD (index * players + player) 0) =
      (values.drop (index * players)).take players := by
  apply List.ext_getElem?
  intro player
  rw [List.getElem?_map, List.getElem?_take, List.getElem?_drop]
  by_cases known : player < players
  · have place : index * players + player < values.length := by
      have row := Nat.mul_le_mul_right players (Nat.succ_le_of_lt inside)
      rw [Nat.succ_mul] at row
      omega
    rw [List.getElem?_range known, Option.map_some, if_pos known, List.getElem?_eq_getElem place]
    simp [Array.getD, place]
  · rw [if_neg known, List.getElem?_eq_none (by simpa using known), Option.map_none]

end NormalForm.File.Description
