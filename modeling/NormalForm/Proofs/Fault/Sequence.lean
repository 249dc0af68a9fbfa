import Mathlib.Data.List.Forall2
import NormalForm.Fault

/-!
Sequences of computations that cannot fault: each succeeds where all of its parts do.
-/

set_option autoImplicit false

namespace NormalForm

theorem entry_inside {α : Type} (entries : List α) (index : Nat) (inside : index < entries.length) :
    entry entries index = .ok entries[index] := by
  rw [entry, List.getElem?_eq_getElem inside]

theorem entry_eq_ok {α : Type} (entries : List α) (index : Nat) (value : α) :
    entry entries index = .ok value ↔ entries[index]? = some value := by
  rw [entry]
  cases entries[index]? with
  | none => simp
  | some other => simp

theorem to_option_eq_some {ε α : Type} (outcome : Except ε α) (value : α) :
    outcome.toOption = some value ↔ outcome = .ok value := by
  cases outcome with
  | error failure => simp [Except.toOption]
  | ok other => simp [Except.toOption]

theorem bind_map {ε α β γ : Type} (first : Except ε α) (next : α → Except ε β) (f : β → γ) :
    (first >>= next).map f = first >>= fun value => (next value).map f := by
  cases first with
  | error failure => rfl
  | ok value => rfl

theorem entry_map {α β : Type} (f : α → β) (entries : List α) (index : Nat) :
    entry (entries.map f) index = (entry entries index).map f := by
  rw [entry, entry, List.getElem?_map]
  cases entries[index]? with
  | none => rfl
  | some value => rfl

-- The results stand beside the items they come from.
theorem map_m_succeeds {ε α β : Type} (items : List α) (step : α → Except ε β) (Fits : α → β → Prop)
    (each : ∀ item ∈ items, ∃ value, step item = .ok value ∧ Fits item value) :
    ∃ values, items.mapM step = .ok values ∧ List.Forall₂ Fits items values := by
  induction items with
  | nil => exact ⟨[], rfl, .nil⟩
  | cons first rest ih =>
      obtain ⟨value, here, fits⟩ := each first List.mem_cons_self
      obtain ⟨values, later, allFit⟩ := ih fun item member => each item (List.mem_cons_of_mem first member)
      refine ⟨value :: values, ?_, .cons fits allFit⟩
      rw [List.mapM_cons, here, ok_bind, later]
      rfl

theorem map_m_eq_map {ε α β : Type} (items : List α) (step : α → Except ε β) (plain : α → β)
    (each : ∀ item ∈ items, step item = .ok (plain item)) : items.mapM step = .ok (items.map plain) := by
  induction items with
  | nil => rfl
  | cons first rest ih =>
      have here := each first List.mem_cons_self
      have later := ih fun item member => each item (List.mem_cons_of_mem first member)
      rw [List.mapM_cons, here, ok_bind, later]
      rfl

theorem map_m_each {ε α β : Type} (items : List α) (step : α → Except ε β) (values : List β)
    (run : items.mapM step = .ok values) : List.Forall₂ (fun item value => step item = .ok value) items values := by
  induction items generalizing values with
  | nil =>
      cases run
      exact .nil
  | cons first rest ih =>
      rw [List.mapM_cons] at run
      obtain ⟨value, here, run⟩ := bind_eq_ok.mp run
      obtain ⟨others, later, run⟩ := bind_eq_ok.mp run
      cases run
      exact .cons here (ih others later)

-- A sequence whose parts can only fail in one way fails in that way if a part does.
theorem map_m_stops {ε α β : Type} (items : List α) (step : α → Except ε β) (failure : ε)
    (each : ∀ item ∈ items, (∃ value, step item = .ok value) ∨ step item = .error failure)
    (stop : ∃ item ∈ items, step item = .error failure) : items.mapM step = .error failure := by
  induction items with
  | nil =>
      obtain ⟨item, member, -⟩ := stop
      cases member
  | cons first rest ih =>
      rw [List.mapM_cons]
      rcases each first List.mem_cons_self with ⟨value, here⟩ | here
      · have later : ∃ item ∈ rest, step item = .error failure := by
          obtain ⟨item, member, stops⟩ := stop
          rcases List.mem_cons.mp member with rfl | listed
          · cases here.symm.trans stops
          · exact ⟨item, listed, stops⟩
        rw [here, ok_bind, ih (fun item member => each item (List.mem_cons_of_mem first member)) later]
        rfl
      · rw [here]
        rfl

theorem map_m_map {ε α β : Type} (items : List α) (step other : α → Except ε β) (f : β → β)
    (each : ∀ item ∈ items, other item = (step item).map f) :
    items.mapM other = (items.mapM step).map (List.map f) := by
  induction items with
  | nil => rfl
  | cons first rest ih =>
      have here := each first List.mem_cons_self
      have later := ih fun item member => each item (List.mem_cons_of_mem first member)
      rw [List.mapM_cons, List.mapM_cons, here, later]
      cases step first with
      | error failure => rfl
      | ok value =>
          cases rest.mapM step with
          | error failure => rfl
          | ok values => rfl

theorem map_m_congr {ε α β : Type} (items : List α) (step other : α → Except ε β)
    (each : ∀ item ∈ items, step item = other item) : items.mapM step = items.mapM other := by
  induction items with
  | nil => rfl
  | cons first rest ih =>
      have here := each first List.mem_cons_self
      have later := ih fun item member => each item (List.mem_cons_of_mem first member)
      rw [List.mapM_cons, List.mapM_cons, here, later]

-- Where a sequence succeeds, so does another one whose parts keep to its parts.
theorem map_m_follows {ε α β γ : Type} (items : List α) (step : α → Except ε β) (other : α → Except ε γ)
    (Fits : β → γ → Prop) (values : List β) (run : items.mapM step = .ok values)
    (each : ∀ item ∈ items, ∀ value, step item = .ok value → ∃ result, other item = .ok result ∧ Fits value result) :
    ∃ results, items.mapM other = .ok results ∧ List.Forall₂ Fits values results := by
  induction items generalizing values with
  | nil =>
      cases run
      exact ⟨[], rfl, .nil⟩
  | cons first rest ih =>
      rw [List.mapM_cons] at run
      obtain ⟨value, here, run⟩ := bind_eq_ok.mp run
      obtain ⟨later, others, run⟩ := bind_eq_ok.mp run
      cases run
      obtain ⟨result, same, fits⟩ := each first List.mem_cons_self value here
      obtain ⟨results, further, allFit⟩ := ih later others fun item member =>
        each item (List.mem_cons_of_mem first member)
      refine ⟨result :: results, ?_, .cons fits allFit⟩
      rw [List.mapM_cons, same, ok_bind, further]
      rfl

theorem forall₂_source {α β : Type} {Fits : α → β → Prop} (items : List α) (values : List β)
    (all : List.Forall₂ Fits items values) (value : β) (member : value ∈ values) :
    ∃ item ∈ items, Fits item value := by
  induction all with
  | nil => cases member
  | @cons first _ rest _ here _ ih =>
      rcases List.mem_cons.mp member with same | later
      · exact ⟨first, List.mem_cons_self, same ▸ here⟩
      · obtain ⟨item, listed, fits⟩ := ih later
        exact ⟨item, List.mem_cons_of_mem first listed, fits⟩

theorem forall₂_value {α β : Type} {Fits : α → β → Prop} (items : List α) (values : List β)
    (all : List.Forall₂ Fits items values) (item : α) (member : item ∈ items) :
    ∃ value ∈ values, Fits item value :=
  forall₂_source values items all.flip item member

theorem forall₂_range {β : Type} {Fits : Nat → β → Prop} (n : Nat) (values : List β)
    (all : List.Forall₂ Fits (List.range n) values) (place : Nat) (below : place < n) :
    ∃ value, values[place]? = some value ∧ Fits place value := by
  have inRange : place < (List.range n).length := List.length_range.symm ▸ below
  have inValues : place < values.length := all.length_eq ▸ inRange
  have fits := all.get inRange inValues
  rw [List.get_eq_getElem, List.get_eq_getElem, List.getElem_range] at fits
  exact ⟨values[place], List.getElem?_eq_getElem inValues, fits⟩

theorem forall₂_set {α β : Type} {Fits : α → β → Prop} (items : List α) (values : List β)
    (all : List.Forall₂ Fits items values) (place : Nat) (item : α) (value : β)
    (known : values[place]? = some value) (fits : Fits item value) :
    List.Forall₂ Fits (items.set place item) values := by
  induction all generalizing place with
  | nil => cases known
  | cons first rest ih =>
      cases place with
      | zero => exact .cons (Option.some.inj known ▸ fits) rest
      | succ place => exact .cons first (ih place known)

end NormalForm
