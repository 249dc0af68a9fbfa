import NormalForm.Proofs.Ranking.Validity

/-!
Which classes make a ranking. Taken as sets they must part the strategies below some number: then every strategy
is marked once and the table of marks is full. Otherwise an empty class is found, or a strategy that has no place in
the table or has been placed before.
-/

set_option autoImplicit false

namespace NormalForm.Ranking

/-! What is marked. -/

theorem mark_members_cases (total : Nat) (placed members : List Nat) :
    (members.Nodup ∧ ∀ strategy ∈ members, strategy < total ∧ strategy ∉ placed) ∨
      ∃ strategy ∈ members,
        members.foldlM (mark total) (marks total placed) = .error (.misplacedStrategy strategy) := by
  induction members generalizing placed with
  | nil => exact .inl ⟨.nil, List.forall_mem_nil _⟩
  | cons first rest ih =>
      rw [List.foldlM_cons, mark_eq]
      by_cases fresh : first < total ∧ first ∉ placed
      · rw [if_pos fresh, ok_bind]
        rcases ih (first :: placed) with ⟨nodup, later⟩ | ⟨strategy, member, refused⟩
        · have absent : first ∉ rest := fun again => (later first again).2 List.mem_cons_self
          refine .inl ⟨List.nodup_cons.mpr ⟨absent, nodup⟩, List.forall_mem_cons.mpr ⟨fresh, ?_⟩⟩
          intro strategy member
          obtain ⟨below, unseen⟩ := later strategy member
          exact ⟨below, fun before => unseen (List.mem_cons_of_mem first before)⟩
        · exact .inr ⟨strategy, List.mem_cons_of_mem first member, refused⟩
      · rw [if_neg fresh]
        exact .inr ⟨first, List.mem_cons_self, rfl⟩

theorem mark_class_cases (total : Nat) (placed members : List Nat) :
    (members ≠ [] ∧ members.Nodup ∧ (∀ strategy ∈ members, strategy < total ∧ strategy ∉ placed) ∧
        markClass total (marks total placed) members = .ok (marks total (members.reverse ++ placed))) ∨
      ∃ fault, markClass total (marks total placed) members = .error fault ∧
        (fault = .emptyClass ∨ ∃ strategy ∈ members, fault = .misplacedStrategy strategy) := by
  by_cases empty : members = []
  · exact .inr ⟨.emptyClass, if_pos empty, .inl rfl⟩
  · rw [markClass, if_neg empty]
    rcases mark_members_cases total placed members with ⟨nodup, fresh⟩ | ⟨strategy, member, refused⟩
    · exact .inl ⟨empty, nodup, fresh, mark_fresh total placed members nodup fresh⟩
    · exact .inr ⟨_, refused, .inr ⟨strategy, member, rfl⟩⟩

-- The induction carries the strategies placed so far, which the classes that are left may not name again.
theorem mark_classes_cases (total : Nat) (placed : List Nat) (classes : List (List Nat)) :
    ((∀ members ∈ classes, members ≠ []) ∧ classes.flatten.Nodup ∧
        ∀ strategy ∈ classes.flatten, strategy < total ∧ strategy ∉ placed) ∨
      ∃ fault, classes.foldlM (markClass total) (marks total placed) = .error fault ∧
        (fault = .emptyClass ∨ ∃ strategy ∈ classes.flatten, fault = .misplacedStrategy strategy) := by
  induction classes generalizing placed with
  | nil => exact .inl ⟨List.forall_mem_nil _, .nil, List.forall_mem_nil _⟩
  | cons members rest ih =>
      rw [List.foldlM_cons, List.flatten_cons]
      rcases mark_class_cases total placed members with ⟨some, nodup, fresh, marked⟩ | ⟨fault, refused, known⟩
      · rw [marked, ok_bind]
        rcases ih (members.reverse ++ placed) with ⟨nonempty, others, later⟩ | ⟨fault, refused, known⟩
        · have apart : ∀ strategy ∈ members, strategy ∉ rest.flatten := fun strategy here again =>
            (later strategy again).2 (List.mem_append_left placed (List.mem_reverse.mpr here))
          refine .inl ⟨List.forall_mem_cons.mpr ⟨some, nonempty⟩, ?_, ?_⟩
          · exact List.nodup_append.mpr ⟨nodup, others, fun one here other there same =>
              apart one here (same ▸ there)⟩
          · intro strategy member
            rcases List.mem_append.mp member with here | there
            · exact fresh strategy here
            · obtain ⟨below, unseen⟩ := later strategy there
              exact ⟨below, fun before => unseen (List.mem_append_right _ before)⟩
        · refine .inr ⟨fault, refused, known.imp_right ?_⟩
          rintro ⟨strategy, member, same⟩
          exact ⟨strategy, List.mem_append_right members member, same⟩
      · rw [refused]
        refine .inr ⟨fault, rfl, known.imp_right ?_⟩
        rintro ⟨strategy, member, same⟩
        exact ⟨strategy, List.mem_append_left _ member, same⟩

/-! Which classes are accepted. -/

-- As many different strategies as there are places leave no place free.
theorem places_filled (order : List Nat) (nodup : order.Nodup) (inside : ∀ strategy ∈ order, strategy < order.length)
    (strategy : Nat) : strategy ∈ order ↔ strategy < order.length := by
  have within : order ⊆ List.range order.length := fun other member => List.mem_range.mpr (inside other member)
  have perm := (List.subperm_of_subset nodup within).perm_of_length_le (Nat.le_of_eq List.length_range)
  rw [perm.mem_iff, List.mem_range]

theorem of_classes_cases (classes : List (List Nat)) :
    (ofClasses classes = .ok ⟨classes.map ofMembers⟩ ∧ ∃ n, Valid ⟨classes.map ofMembers⟩ n) ∨
      ∃ fault, ofClasses classes = .error fault ∧
        (fault = .emptyClass ∨ ∃ strategy ∈ classes.flatten, fault = .misplacedStrategy strategy) := by
  have ascending : ∀ members ∈ classes.map ofMembers, members.Pairwise (· < ·) := by
    intro members listed
    obtain ⟨given, -, rfl⟩ := List.mem_map.mp listed
    exact of_members_ascending given
  have run : ofClasses classes = (classes.map ofMembers).foldlM
      (markClass (classes.map ofMembers).flatten.length) (marks (classes.map ofMembers).flatten.length []) >>=
        fun _ => .ok ⟨classes.map ofMembers⟩ := by
    rw [marks_none]
    rfl
  rcases mark_classes_cases (classes.map ofMembers).flatten.length [] (classes.map ofMembers) with
    ⟨nonempty, nodup, fresh⟩ | ⟨fault, refused, known⟩
  · rw [run, mark_classes _ _ _ nonempty nodup fresh]
    have covers := places_filled _ nodup fun strategy member => (fresh strategy member).1
    exact .inl ⟨rfl, _, nonempty, ascending, (List.nodup_flatten.mp nodup).2, covers⟩
  · rw [run, refused]
    refine .inr ⟨fault, rfl, known.imp_right ?_⟩
    rintro ⟨strategy, member, same⟩
    obtain ⟨members, listed, inside⟩ := List.mem_flatten.mp member
    obtain ⟨given, known, rfl⟩ := List.mem_map.mp listed
    exact ⟨strategy, List.mem_flatten_of_mem known ((mem_of_members strategy given).mp inside), same⟩

theorem of_classes_parts (classes : List (List Nat)) (n : Nat) (valid : Valid ⟨classes.map ofMembers⟩ n) :
    ofClasses classes = .ok ⟨classes.map ofMembers⟩ := by
  have again : (classes.map ofMembers).map ofMembers = classes.map ofMembers := by
    rw [List.map_map]
    exact List.map_congr_left fun members _ => of_members_self _ (of_members_ascending members)
  have made := of_classes_valid _ n valid
  rw [ofClasses, again] at made
  exact made

-- The order in which a class names its members does not matter, nor does how often.
theorem valid_of_members_iff (classes : List (List Nat)) (n : Nat) :
    Valid ⟨classes.map ofMembers⟩ n ↔ (∀ members ∈ classes, members ≠ []) ∧ classes.Pairwise List.Disjoint ∧
      ∀ strategy, strategy ∈ classes.flatten ↔ strategy < n := by
  have nothing (members : List Nat) : ofMembers members = [] ↔ members = [] := by
    rw [List.eq_nil_iff_forall_not_mem, List.eq_nil_iff_forall_not_mem]
    exact forall_congr' fun strategy => not_congr (mem_of_members strategy members)
  have apart (one other : List Nat) : (ofMembers one).Disjoint (ofMembers other) ↔ one.Disjoint other := by
    simp only [List.disjoint_left, mem_of_members]
  have union (strategy : Nat) : strategy ∈ (classes.map ofMembers).flatten ↔ strategy ∈ classes.flatten := by
    simp only [List.mem_flatten, List.mem_map, exists_exists_and_eq_and, mem_of_members]
  have ascending : ∀ members ∈ classes.map ofMembers, members.Pairwise (· < ·) :=
    List.forall_mem_map.mpr fun members _ => of_members_ascending members
  constructor
  · intro valid
    refine ⟨fun members listed => ?_, ?_, fun strategy => (union strategy).symm.trans (valid.covers strategy)⟩
    · exact mt (nothing members).mpr (valid.nonempty _ (List.mem_map_of_mem listed))
    · exact (List.pairwise_map.mp valid.disjoint).imp (apart _ _).mp
  · rintro ⟨nonempty, disjoint, covers⟩
    refine ⟨?_, ascending, ?_, fun strategy => (union strategy).trans (covers strategy)⟩
    · exact List.forall_mem_map.mpr fun members listed => mt (nothing members).mp (nonempty members listed)
    · exact List.pairwise_map.mpr (disjoint.imp (apart _ _).mpr)

-- The classes may come in any order of their members and with repetitions; what they are as sets decides.
theorem of_classes_accepts_partitions (classes : List (List Nat)) :
    ((∃ ranking, ofClasses classes = .ok ranking) ↔
      (∀ members ∈ classes, members ≠ []) ∧ classes.Pairwise List.Disjoint ∧
        ∃ n, ∀ strategy, strategy ∈ classes.flatten ↔ strategy < n) ∧
    (∀ ranking, ofClasses classes = .ok ranking → List.Forall₂ (fun placed members =>
      placed.Pairwise (· < ·) ∧ ∀ strategy, strategy ∈ placed ↔ strategy ∈ members) ranking.classes classes) ∧
    ∀ fault, ofClasses classes = .error fault →
      fault.message? = some "rank classes must be non-empty" ∨ ∃ strategy ∈ classes.flatten,
        fault.message? = some s!"strategy {strategy} placed twice or out of range" := by
  rcases of_classes_cases classes with ⟨made, n, valid⟩ | ⟨fault, refused, known⟩
  · obtain ⟨nonempty, disjoint, covers⟩ := (valid_of_members_iff classes n).mp valid
    refine ⟨⟨fun _ => ⟨nonempty, disjoint, n, covers⟩, fun _ => ⟨_, made⟩⟩, ?_, ?_⟩
    · intro ranking again
      cases made.symm.trans again
      rw [List.forall₂_map_left_iff, List.forall₂_same]
      exact fun members _ => ⟨of_members_ascending members, fun strategy => mem_of_members strategy members⟩
    · intro fault refused
      cases made.symm.trans refused
  · refine ⟨⟨?_, ?_⟩, ?_, ?_⟩
    · rintro ⟨ranking, made⟩
      cases refused.symm.trans made
    · rintro ⟨nonempty, disjoint, n, covers⟩
      exact ⟨_, of_classes_parts classes n ((valid_of_members_iff classes n).mpr ⟨nonempty, disjoint, covers⟩)⟩
    · intro ranking made
      cases refused.symm.trans made
    · intro other again
      cases refused.symm.trans again
      rcases known with rfl | ⟨strategy, member, rfl⟩
      · exact .inl rfl
      · exact .inr ⟨strategy, member, rfl⟩

example : ofClasses [[2, 0, 2], [1]] = .ok ⟨[[0, 2], [1]]⟩ := rfl

end NormalForm.Ranking
