import TypeTrace.Proofs.Flow.Descent
import TypeTrace.View.Tree

/-!
# Groups of entries with one label

The groups of some entries have their labels, in the order in which these first occur, and
each group holds the entries of its label in their order (`groups_eq`).  The first members
are the entries that come before all others of their label.
-/

namespace TypeTrace.View

open TypeTrace.Flow

variable {graph : DependencyGraph} {ids : List Nat} {id : Nat}

theorem groups_concat (graph : DependencyGraph) (ids : List Nat) (last : Nat) :
    groups graph (ids ++ [last]) = addToGroup (graph.label last) last (groups graph ids) := by
  simp [groups]

/-! ## Labels and members -/

theorem addToGroup_eq (label : String) (id : Nat) (groups : List (String × List Nat)) :
    addToGroup label id groups =
      Keyed.update (·.1) label (label, [id]) (fun group => (group.1, group.2 ++ [id])) groups := by
  induction groups with
  | nil => rfl
  | cons group rest ih => rw [addToGroup, Keyed.update, ih]

/-- Groups by the labels that occur, each with the entries that have it. -/
theorem groups_eq (graph : DependencyGraph) (ids : List Nat) :
    groups graph ids = (ids.map graph.label).eraseDups.map fun label =>
      (label, ids.filter (graph.label · = label)) := by
  have gathers : Keyed.Gathers graph.label (·.1) (fun id => (graph.label id, [id]))
      (fun id group => (group.1, group.2 ++ [id])) Prod.mk :=
    ⟨fun _ => rfl, fun _ _ _ => rfl, fun _ _ => rfl⟩
  rw [groups]
  simp only [addToGroup_eq]
  exact Keyed.foldl_update gathers ids

theorem label_of_mem_groups {label : String} {members : List Nat}
    (isGroup : (label, members) ∈ groups graph ids) (member : id ∈ members) :
    graph.label id = label := by
  rw [groups_eq] at isGroup
  obtain ⟨other, _, isPair⟩ := List.mem_map.mp isGroup
  cases isPair
  exact of_decide_eq_true (List.mem_filter.mp member).2

/-! ## No member is lost -/

theorem addToGroup_perm (label : String) (id : Nat) (groups : List (String × List Nat)) :
    ((addToGroup label id groups).flatMap (·.2)).Perm (id :: groups.flatMap (·.2)) := by
  induction groups with
  | nil => exact .refl _
  | cons group rest ih =>
      obtain ⟨first, members⟩ := group
      by_cases isFirst : first = label
      · simp [addToGroup, isFirst]
      · simp only [addToGroup, isFirst, if_false, List.flatMap_cons]
        exact (ih.append_left members).trans List.perm_middle

theorem groups_perm (graph : DependencyGraph) (ids : List Nat) :
    ((groups graph ids).flatMap (·.2)).Perm ids := by
  induction ids using List.reverseRecOn with
  | nil => exact .refl _
  | append_singleton before last ih =>
      rw [groups_concat]
      have added := addToGroup_perm (graph.label last) last (groups graph before)
      exact (added.trans (ih.cons last)).trans (List.perm_append_singleton last before).symm

/-! ## First members -/

/-- The first members of some groups. -/
def heads (groups : List (String × List Nat)) : List Nat :=
  groups.filterMap fun group => group.2.head?

/-- The first entry of each label. -/
def leaders (graph : DependencyGraph) (ids : List Nat) : List Nat :=
  heads (groups graph ids)

theorem leaders_eq (graph : DependencyGraph) (ids : List Nat) :
    leaders graph ids = (ids.map graph.label).eraseDups.filterMap fun label =>
      ids.find? (graph.label · = label) := by
  rw [leaders, heads, groups_eq, List.filterMap_map]
  simp only [Function.comp_def, List.head?_filter]

theorem mem_leaders_iff_find? :
    id ∈ leaders graph ids ↔ ids.find? (graph.label · = graph.label id) = some id := by
  rw [leaders_eq, List.mem_filterMap]
  constructor
  · rintro ⟨label, _, isFirst⟩
    have isLabel : graph.label id = label := by simpa using List.find?_some isFirst
    rw [isLabel]
    exact isFirst
  · intro isFirst
    refine ⟨graph.label id, ?_, isFirst⟩
    exact List.mem_eraseDups.mpr (List.mem_map_of_mem (List.mem_of_find?_eq_some isFirst))

/-- An entry is the first of its label if no entry before it has the label. -/
theorem mem_leaders :
    id ∈ leaders graph ids ↔ ∃ before after, ids = before ++ id :: after ∧
      ∀ other ∈ before, graph.label other ≠ graph.label id := by
  rw [mem_leaders_iff_find?, List.find?_eq_some_iff_append]
  simp

/-- Each label has one first entry at most. -/
theorem leaders_choice (graph : DependencyGraph) : DependencyGraph.Choice (leaders graph) where
  subset := by
    intro ids id member
    obtain ⟨before, after, rfl, _⟩ := mem_leaders.mp member
    exact List.mem_append_right before List.mem_cons_self
  distinct := by
    intro ids _
    rw [leaders_eq]
    refine (eraseDups_nodup _).filterMap ?_
    intro label other id isFirst isFirstOther
    have isLabel : graph.label id = label := by simpa using List.find?_some isFirst
    have isOther : graph.label id = other := by simpa using List.find?_some isFirstOther
    exact isLabel.symm.trans isOther

end TypeTrace.View
