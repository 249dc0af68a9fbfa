import NormalForm.Proofs.Dimensions.Numbering
import NormalForm.Proofs.Game.Operations
import NormalForm.Proofs.Profile.Odometer

/-!
What a game stores, without places or ids: the live outcomes in order, each with a label and a payoff
per player, and for every strategy vector in range at most one live outcome. Operations and questions
are stated on this store alone; an operation that its contract forbids gives no store.
-/

set_option autoImplicit false

namespace NormalForm

structure Store.Entry where
  handle : Handle
  label : String
  payoffs : List Rat
deriving DecidableEq

structure Store where
  dims : Dimensions
  entries : List Store.Entry
  cells : List Nat → Option Handle

namespace Store

def empty (dims : Dimensions) : Store := ⟨dims, [], fun _ => none⟩

def live (store : Store) (handle : Handle) : Bool := store.entries.any fun entry => entry.handle == handle

/-! Operations. -/

def newOutcome (store : Store) (handle : Handle) : Store :=
  { store with entries := store.entries ++ [⟨handle, "", List.replicate store.dims.length 0⟩] }

-- Whether the outcome was live, and the store without it.
def deleteOutcome (store : Store) (handle : Handle) : Bool × Store :=
  if store.live handle then
    (true,
      { store with
        entries := store.entries.filter fun entry => entry.handle != handle
        cells := fun strategies =>
          if store.cells strategies = some handle then none else store.cells strategies })
  else (false, store)

def change (store : Store) (handle : Handle) (update : Entry → Entry) : Store :=
  { store with
    entries := store.entries.map fun entry => if entry.handle == handle then update entry else entry }

def setLabel (store : Store) (handle : Handle) (label : String) : Store :=
  store.change handle fun entry => { entry with label }

def setPayoff? (store : Store) (handle : Handle) (player : Nat) (value : Rat) : Option Store :=
  if player < store.dims.length ∧ store.live handle then
    some (store.change handle fun entry => { entry with payoffs := entry.payoffs.set player value })
  else none

def setOutcome? (store : Store) (strategies : List Nat) (outcome : Option Handle) : Option Store :=
  if store.dims.InRange strategies ∧ outcome.all store.live then
    some { store with cells := Function.update store.cells strategies outcome }
  else none

-- The cell is named by its place in the order of the vectors.
def setOutcomeAt? (store : Store) (index : Nat) (outcome : Option Handle) : Option Store :=
  if index < store.dims.count then store.setOutcome? (store.dims.vectorAt index) outcome else none

def perform? (store : Store) : Game.Operation → Option Store
  | .setTitle _ => some store
  | .setComment _ => some store
  | .setPlayerName player _ => if player < store.dims.length then some store else none
  | .setStrategyName player strategy _ =>
      if (store.dims[player]?).any fun count => strategy < count then some store else none
  | .newOutcome handle => some (store.newOutcome handle)
  | .deleteOutcome handle => some (store.deleteOutcome handle).2
  | .setLabel handle label => some (store.setLabel handle label)
  | .setPayoff handle player value => store.setPayoff? handle player value
  | .setOutcome strategies outcome => store.setOutcome? strategies outcome
  | .setProfileOutcome profile outcome => store.setOutcomeAt? profile.index outcome
  | .setOutcomeAt index outcome => store.setOutcomeAt? index outcome
  | .refresh => some store
  | .markSaved => some store
  | .copy => some store

def performAll? (store : Store) (history : List Game.Operation) : Option Store :=
  history.foldlM perform? store

/-! Questions; ids are places counted from one. -/

def find? (store : Store) (handle : Handle) : Option Entry :=
  store.entries.find? fun entry => entry.handle == handle

def idOf? (store : Store) (handle : Handle) : Option Nat :=
  (store.entries.findIdx? fun entry => entry.handle == handle).map fun place => place + 1

def outcome? (store : Store) (handle : Handle) : Option (Nat × Entry) := do
  some (← store.idOf? handle, ← store.find? handle)

def handleOfId? (store : Store) : Nat → Option Handle
  | 0 => none
  | place + 1 => (store.entries[place]?).map Entry.handle

-- An outcome that is not live pays zero.
def payoff? (store : Store) (handle : Handle) (player : Nat) : Option Rat :=
  match store.find? handle with
  | some entry => entry.payoffs[player]?
  | none => some 0

def getOutcome? (store : Store) (strategies : List Nat) : Option (Option Handle) :=
  if store.dims.InRange strategies then some (store.cells strategies) else none

def outcomeAt? (store : Store) (index : Nat) : Option (Option Handle) :=
  if index < store.dims.count then some (store.cells (store.dims.vectorAt index)) else none

-- An empty cell has id zero and pays zero.
def outcomeIdAt? (store : Store) (index : Nat) : Option Nat :=
  match store.outcomeAt? index with
  | none => none
  | some none => some 0
  | some (some handle) => store.idOf? handle

def payoffAt? (store : Store) (index player : Nat) : Option Rat :=
  match store.outcomeAt? index with
  | none => none
  | some none => some 0
  | some (some handle) => (store.find? handle).bind fun entry => entry.payoffs[player]?

/-! What holds of every store that operations can make. -/

structure Sound (store : Store) : Prop where
  distinct : (store.entries.map Entry.handle).Nodup
  payoffs : ∀ entry ∈ store.entries, entry.payoffs.length = store.dims.length
  cells : ∀ strategies handle, store.cells strategies = some handle →
    store.dims.InRange strategies ∧ store.live handle

theorem delete_find (store : Store) (handle other : Handle) (different : other ≠ handle) :
    (store.deleteOutcome handle).2.find? other = store.find? other := by
  rw [deleteOutcome]
  split
  · simp only [find?, List.find?_filter]
    congr 1
    funext entry
    by_cases same : entry.handle = other
    · simp [same, different]
    · simp [same]
  · rfl

end Store

/-! Profiles of a game name the cell of their strategies. -/

namespace Profile

-- Made for these dimensions: from scratch, from a vector, by moving one player, or listed.
inductive Built (dims : Dimensions) : Profile → Prop where
  | first : Built dims (first dims)
  | ofStrategies (strategies : List Nat) (profile : Profile)
      (made : ofStrategies dims strategies = .ok profile) : Built dims profile
  | move (before after : Profile) (player strategy : Nat) (built : Built dims before)
      (made : move dims before player strategy = .ok after) : Built dims after
  | listed (fixed : List (Nat × Nat)) (profiles : List Profile) (profile : Profile)
      (made : dims.contingencies fixed = .ok profiles) (member : profile ∈ profiles) : Built dims profile

theorem move_built (dims : Dimensions) (before after : Profile) (player strategy : Nat)
    (place : before.index = dims.index before.strategies)
    (range : (∀ d ∈ dims, 0 < d) → dims.InRange before.strategies)
    (made : move dims before player strategy = .ok after) :
    after.index = dims.index after.strategies ∧
      ((∀ d ∈ dims, 0 < d) → dims.InRange after.strategies) := by
  obtain ⟨count, counted, rest⟩ := bind_eq_ok.mp made
  have known := (entry_eq_ok _ _ _).mp counted
  split at rest
  · cases rest
  · rename_i below
    obtain ⟨current, named, rest⟩ := bind_eq_ok.mp rest
    split at rest
    · cases rest
    · dsimp only at rest
      split at rest
      · cases rest
      · rename_i enough
        cases rest
        have inside := (List.getElem?_eq_some_iff.mp known).1
        have moved := dims.index_set before.strategies player current strategy inside
          ((entry_eq_ok _ _ _).mp named)
        refine ⟨by simp only; omega, fun positive => ?_⟩
        exact forall₂_set _ dims (range positive) player strategy count known (Nat.lt_of_not_le below)

theorem built_place (dims : Dimensions) (profile : Profile) (built : Built dims profile) :
    profile.index = dims.index profile.strategies ∧
      ((∀ d ∈ dims, 0 < d) → dims.InRange profile.strategies) := by
  induction built with
  | first =>
      exact ⟨dims.index_zeros.symm, fun positive =>
        List.forall₂_map_left_iff.mpr (List.forall₂_same.mpr positive)⟩
  | ofStrategies strategies profile made =>
      obtain ⟨index, located, rest⟩ := bind_eq_ok.mp made
      cases rest
      by_cases valid : dims.InRange strategies
      · rw [dims.locate_in_range strategies valid] at located
        cases located
        exact ⟨rfl, fun _ => valid⟩
      · obtain ⟨fault, refused⟩ := dims.locate_out_of_range strategies valid
        cases refused.symm.trans located
  | move before after player strategy _ made ih =>
      exact move_built dims before after player strategy ih.1 ih.2 made
  | listed fixed profiles profile made member =>
      rw [dims.contingencies_eq fixed] at made
      cases chosen : dims.fix fixed with
      | error fault =>
          rw [chosen] at made
          cases made
      | ok choices =>
          rw [chosen] at made
          cases made
          obtain ⟨strategies, listed, rfl⟩ := List.mem_map.mp member
          have held := dims.fix_ok_held fixed choices chosen
          exact ⟨rfl, fun _ => dims.vectors_in_range choices held strategies listed⟩

-- Where a player lacks strategies there are no cells, and no vector is in range.
theorem built_vector (dims : Dimensions) (profile : Profile) (built : Built dims profile) :
    (profile.index < dims.count ↔ dims.InRange profile.strategies) ∧
      (profile.index < dims.count → dims.vectorAt profile.index = profile.strategies) := by
  obtain ⟨place, range⟩ := built_place dims profile built
  have valid (inside : profile.index < dims.count) : dims.InRange profile.strategies :=
    range (dims.positive_of_count (Nat.zero_lt_of_lt inside))
  refine ⟨⟨valid, fun known => ?_⟩, fun inside => ?_⟩
  · rw [place]
    exact dims.index_lt_count _ known
  · rw [place]
    exact dims.vector_at_index _ (valid inside)

end Profile

theorem Store.built_outcome (store : Store) (profile : Profile) (built : profile.Built store.dims) :
    store.outcomeAt? profile.index = store.getOutcome? profile.strategies := by
  obtain ⟨range, vector⟩ := profile.built_vector store.dims built
  rw [outcomeAt?, getOutcome?]
  by_cases inside : profile.index < store.dims.count
  · rw [if_pos inside, if_pos (range.mp inside), vector inside]
  · rw [if_neg inside, if_neg (mt range.mpr inside)]

theorem Store.built_set_outcome (store : Store) (profile : Profile) (outcome : Option Handle)
    (built : profile.Built store.dims) :
    store.setOutcomeAt? profile.index outcome = store.setOutcome? profile.strategies outcome := by
  obtain ⟨range, vector⟩ := profile.built_vector store.dims built
  rw [setOutcomeAt?]
  by_cases inside : profile.index < store.dims.count
  · rw [if_pos inside, vector inside]
  · rw [if_neg inside, setOutcome?, if_neg fun both => inside (range.mpr both.1)]

end NormalForm
