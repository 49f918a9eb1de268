import TypeTrace.Flow.Graph

/-!
# Building a dependency map

What one change of a map that is being built does to its edges: nothing is ever taken
away, only what is given is added, and everything that is given is there afterwards, if
only in the form of a child with the same line and label.
-/

namespace TypeTrace.Flow

@[simp] theorem Entry.sameSite_self (entry : Entry) : entry.sameSite entry = true := by
  simp [sameSite]

namespace Edges

variable {edges : Edges} {key child : Nat}

/-- A child that is recorded under a key. -/
def Leads (edges : Edges) (key child : Nat) : Prop :=
  ∃ children, (key, children) ∈ edges ∧ child ∈ children

theorem mem_values_iff : child ∈ edges.flatMap (·.2) ↔ ∃ key, edges.Leads key child := by
  simp only [List.mem_flatMap, Prod.exists, Leads]

theorem leads_of_mem_children (member : child ∈ edges.children key) :
    edges.Leads key child := by
  cases found : List.lookup key edges with
  | none => simp [children, found] at member
  | some recorded =>
      simp only [children, found, Option.getD_some] at member
      obtain ⟨before, after, rfl, _⟩ := List.lookup_eq_some_iff.mp found
      exact ⟨recorded, by simp, member⟩

@[simp] theorem keys_addChild (edges : Edges) (key child : Nat) :
    (edges.addChild key child).map (·.1) = edges.map (·.1) := by
  simp only [addChild, List.map_map]
  apply List.map_congr_left
  intro pair _
  simp only [Function.comp_apply]
  split <;> rfl

theorem leads_addChild {other added : Nat} :
    (edges.addChild key added).Leads other child ↔
      edges.Leads other child ∨
        (other = key ∧ child = added ∧ key ∈ edges.map (·.1)) := by
  simp only [Leads, addChild, List.mem_map, Prod.exists]
  constructor
  · rintro ⟨children, ⟨found, recorded, member, equal⟩, isChild⟩
    split at equal
    next isKey =>
      cases equal
      rcases List.mem_append.mp isChild with before | last
      · exact .inl ⟨recorded, member, before⟩
      · exact .inr ⟨isKey, List.mem_singleton.mp last, _, _, isKey ▸ member, rfl⟩
    next =>
      cases equal
      exact .inl ⟨children, member, isChild⟩
  · rintro (⟨children, member, isChild⟩ | ⟨rfl, rfl, _, recorded, member, rfl⟩)
    · by_cases isKey : other = key
      · refine ⟨children ++ [added], ⟨other, children, member, ?_⟩, ?_⟩
        · simp [isKey]
        · exact List.mem_append_left _ isChild
      · exact ⟨children, ⟨other, children, member, by simp [isKey]⟩, isChild⟩
    · exact ⟨recorded ++ [child], ⟨_, recorded, member, by simp⟩, by simp⟩

theorem lookup_addChild (edges : Edges) (key added other : Nat) :
    List.lookup other (edges.addChild key added) =
      (List.lookup other edges).map fun children =>
        if other = key then children ++ [added] else children := by
  induction edges with
  | nil => rfl
  | cons pair rest ih =>
      obtain ⟨first, recorded⟩ := pair
      simp only [addChild, List.map_cons] at ih ⊢
      by_cases isFirst : other = first
      · subst isFirst
        by_cases isKey : other = key
        · simp [isKey]
        · simp [isKey]
      · have skips : (other == first) = false := by simp [isFirst]
        by_cases isKey : first = key
        · simp only [isKey, ↓reduceIte, List.lookup_cons]
          rw [isKey] at skips
          simp only [skips]
          exact ih
        · simp only [isKey, ↓reduceIte, List.lookup_cons, skips]
          exact ih

theorem children_addChild_self (isKey : edges.isKey key = true) :
    (edges.addChild key child).children key = edges.children key ++ [child] := by
  obtain ⟨recorded, found⟩ := Option.isSome_iff_exists.mp isKey
  simp [children, lookup_addChild, found]

/-- A key that has children keeps having some. -/
theorem children_addChild_ne_nil {other : Nat} (some : edges.children other ≠ []) :
    (edges.addChild key child).children other ≠ [] := by
  cases found : List.lookup other edges with
  | none => simp [children, found] at some
  | some recorded =>
      simp only [children, found, Option.getD_some] at some
      simp only [children, lookup_addChild, found, Option.map_some, Option.getD_some]
      split
      · simp
      · exact some

end Edges

namespace GraphBuilder

variable {builder : GraphBuilder} {mode : SiblingCommit} {key id : Nat}
variable {batch : List Nat}

/-! ## Children for a key -/

/-- All that giving a key a child can do. -/
theorem addChild_cases (builder : GraphBuilder) (key id : Nat) :
    (builder.hasChildLike key id = true ∧ builder.addChild key id = builder) ∨
      builder.addChild key id = { builder with edges := builder.edges.addChild key id } := by
  by_cases likeIt : builder.hasChildLike key id = true
  · exact .inl ⟨likeIt, by simp [addChild, likeIt]⟩
  · exact .inr (by simp [addChild, likeIt])

theorem addChild_frame (builder : GraphBuilder) (key id : Nat) :
    ∃ edges, builder.addChild key id = { builder with edges := edges } := by
  rcases addChild_cases builder key id with ⟨_, same⟩ | changed
  · exact ⟨builder.edges, same⟩
  · exact ⟨_, changed⟩

@[simp] theorem addChild_keys :
    (builder.addChild key id).edges.map (·.1) = builder.edges.map (·.1) := by
  rcases addChild_cases builder key id with ⟨_, same⟩ | changed
  · rw [same]
  · rw [changed]
    exact Edges.keys_addChild builder.edges key id

theorem addChildren_cons :
    builder.addChildren key (id :: batch) = (builder.addChild key id).addChildren key batch :=
  rfl

theorem addChildren_frame (builder : GraphBuilder) (key : Nat) (batch : List Nat) :
    ∃ edges, builder.addChildren key batch = { builder with edges := edges } := by
  induction batch generalizing builder with
  | nil => exact ⟨builder.edges, rfl⟩
  | cons id rest ih =>
      obtain ⟨first, afterFirst⟩ := addChild_frame builder key id
      obtain ⟨edges, afterRest⟩ := ih (builder.addChild key id)
      refine ⟨edges, ?_⟩
      rw [addChildren_cons, afterRest, afterFirst]

theorem leads_of_leads_addChild {other child : Nat}
    (leads : (builder.addChild key id).edges.Leads other child) :
    builder.edges.Leads other child ∨ child = id := by
  rcases addChild_cases builder key id with ⟨_, same⟩ | changed
  · rw [same] at leads
    exact .inl leads
  · rw [changed] at leads
    rcases Edges.leads_addChild.mp leads with before | ⟨_, isNew, _⟩
    · exact .inl before
    · exact .inr isNew

theorem leads_addChild {other child : Nat} (leads : builder.edges.Leads other child) :
    (builder.addChild key id).edges.Leads other child := by
  rcases addChild_cases builder key id with ⟨_, same⟩ | changed
  · rw [same]
    exact leads
  · rw [changed]
    exact Edges.leads_addChild.mpr (.inl leads)

theorem leads_of_leads_addChildren {other child : Nat}
    (leads : (builder.addChildren key batch).edges.Leads other child) :
    builder.edges.Leads other child ∨ child ∈ batch := by
  induction batch generalizing builder with
  | nil => exact .inl leads
  | cons id rest ih =>
      rw [addChildren_cons] at leads
      rcases ih leads with before | later
      · rcases leads_of_leads_addChild before with before | rfl
        · exact .inl before
        · exact .inr List.mem_cons_self
      · exact .inr (List.mem_cons_of_mem id later)

theorem leads_addChildren {other child : Nat} (leads : builder.edges.Leads other child) :
    (builder.addChildren key batch).edges.Leads other child := by
  induction batch generalizing builder with
  | nil => exact leads
  | cons id rest ih =>
      rw [addChildren_cons]
      exact ih (leads_addChild leads)

/-- A child that is given to a key is there afterwards, or one like it is. -/
theorem exists_like_addChild (isKey : key ∈ builder.edges.map (·.1)) :
    ∃ child, (builder.addChild key id).edges.Leads key child ∧
      (builder.entry child).sameSite (builder.entry id) = true := by
  rcases addChild_cases builder key id with ⟨likeIt, same⟩ | changed
  · rw [same]
    obtain ⟨child, member, isLike⟩ := List.any_eq_true.mp likeIt
    refine ⟨child, Edges.leads_of_mem_children member, ?_⟩
    rcases Bool.or_eq_true_iff.mp isLike with equal | isLike
    · rw [beq_iff_eq.mp equal]
      exact Entry.sameSite_self _
    · exact isLike
  · rw [changed]
    exact ⟨id, Edges.leads_addChild.mpr (.inr ⟨rfl, rfl, isKey⟩), Entry.sameSite_self _⟩

theorem exists_like_addChildren (isKey : key ∈ builder.edges.map (·.1))
    (member : id ∈ batch) :
    ∃ child, (builder.addChildren key batch).edges.Leads key child ∧
      (builder.entry child).sameSite (builder.entry id) = true := by
  induction batch generalizing builder with
  | nil => cases member
  | cons first rest ih =>
      rw [addChildren_cons]
      rcases List.mem_cons.mp member with rfl | member
      · obtain ⟨child, leads, isLike⟩ := @exists_like_addChild builder key id isKey
        exact ⟨child, leads_addChildren leads, isLike⟩
      · have stays : key ∈ (builder.addChild key first).edges.map (·.1) := by
          rw [addChild_keys]
          exact isKey
        obtain ⟨child, leads, isLike⟩ := ih stays member
        obtain ⟨edges, frame⟩ := addChild_frame builder key first
        refine ⟨child, leads, ?_⟩
        rw [frame] at isLike
        exact isLike

theorem children_addChild_ne_nil {other : Nat} (some : builder.edges.children other ≠ []) :
    (builder.addChild key id).edges.children other ≠ [] := by
  rcases addChild_cases builder key id with ⟨_, same⟩ | changed
  · rw [same]
    exact some
  · rw [changed]
    exact Edges.children_addChild_ne_nil some

theorem children_addChildren_ne_nil {other : Nat}
    (some : builder.edges.children other ≠ []) :
    (builder.addChildren key batch).edges.children other ≠ [] := by
  induction batch generalizing builder with
  | nil => exact some
  | cons id rest ih =>
      rw [addChildren_cons]
      exact ih (children_addChild_ne_nil some)

/-- A key without children takes the first one it is given. -/
theorem children_addChildren_of_nil (isKey : builder.edges.isKey key = true)
    (none : builder.edges.children key = []) (given : batch ≠ []) :
    (builder.addChildren key batch).edges.children key ≠ [] := by
  cases batch with
  | nil => exact absurd rfl given
  | cons id rest =>
      rw [addChildren_cons]
      apply children_addChildren_ne_nil
      have unlike : builder.hasChildLike key id = false := by
        simp [hasChildLike, none]
      simp [addChild, unlike, Edges.children_addChild_self isKey]

/-! ## Batches for the entry on top of the stack -/

/-- All that recording a batch can do: nothing if nothing is open, and otherwise it goes
to a key that is there or to a new one. -/
theorem commit_cases (mode : SiblingCommit) (builder : GraphBuilder) (batch : List Nat) :
    (builder.stack = [] ∧ builder.commit mode batch = builder) ∨
      (∃ key ∈ builder.edges.map (·.1),
        builder.commit mode batch = builder.addChildren key batch) ∨
      ∃ top, builder.commit mode batch =
        { builder with edges := builder.edges ++ [(top, [])] }.addChildren top
          (kept mode batch) := by
  cases isStack : builder.stack with
  | nil => exact .inl ⟨rfl, by simp [commit, isStack]⟩
  | cons top rest =>
      cases found : builder.keyLike? top with
      | none => exact .inr (.inr ⟨top, by simp [commit, isStack, found]⟩)
      | some key =>
          refine .inr (.inl ⟨key, List.mem_of_find?_eq_some found, ?_⟩)
          simp [commit, isStack, found]

theorem commit_frame (mode : SiblingCommit) (builder : GraphBuilder) (batch : List Nat) :
    ∃ edges, builder.commit mode batch = { builder with edges := edges } := by
  rcases commit_cases mode builder batch with ⟨_, same⟩ | ⟨key, _, added⟩ | ⟨top, added⟩
  · exact ⟨builder.edges, same⟩
  · rw [added]
    exact addChildren_frame builder key batch
  · rw [added]
    exact addChildren_frame _ top (kept mode batch)

@[simp] theorem commit_entries : (builder.commit mode batch).entries = builder.entries := by
  obtain ⟨edges, frame⟩ := commit_frame mode builder batch
  rw [frame]

@[simp] theorem commit_stack : (builder.commit mode batch).stack = builder.stack := by
  obtain ⟨edges, frame⟩ := commit_frame mode builder batch
  rw [frame]

@[simp] theorem commit_root : (builder.commit mode batch).root = builder.root := by
  obtain ⟨edges, frame⟩ := commit_frame mode builder batch
  rw [frame]

@[simp] theorem commit_entry : (builder.commit mode batch).entry id = builder.entry id := by
  simp [entry]

theorem mem_of_mem_kept (member : id ∈ kept mode batch) : id ∈ batch := by
  cases mode with
  | firstOnly => exact List.mem_of_mem_take member
  | all => exact member

theorem kept_ne_nil (given : batch ≠ []) : kept mode batch ≠ [] := by
  cases mode with
  | firstOnly => simpa [kept] using given
  | all => exact given

theorem leads_append_key {edges : Edges} {top other child : Nat} :
    Edges.Leads (edges ++ [(top, [])]) other child ↔ edges.Leads other child := by
  simp only [Edges.Leads, List.mem_append, List.mem_singleton, Prod.mk.injEq]
  constructor
  · rintro ⟨children, member | ⟨_, rfl⟩, isChild⟩
    · exact ⟨children, member, isChild⟩
    · cases isChild
  · rintro ⟨children, member, isChild⟩
    exact ⟨children, .inl member, isChild⟩

theorem leads_of_leads_commit {other child : Nat}
    (leads : (builder.commit mode batch).edges.Leads other child) :
    builder.edges.Leads other child ∨ child ∈ batch := by
  rcases commit_cases mode builder batch with ⟨_, same⟩ | ⟨key, _, added⟩ | ⟨top, added⟩
  · rw [same] at leads
    exact .inl leads
  · rw [added] at leads
    exact leads_of_leads_addChildren leads
  · rw [added] at leads
    rcases leads_of_leads_addChildren leads with before | given
    · exact .inl (leads_append_key.mp before)
    · exact .inr (mem_of_mem_kept given)

theorem leads_commit {other child : Nat} (leads : builder.edges.Leads other child) :
    (builder.commit mode batch).edges.Leads other child := by
  rcases commit_cases mode builder batch with ⟨_, same⟩ | ⟨key, _, added⟩ | ⟨top, added⟩
  · rw [same]
    exact leads
  · rw [added]
    exact leads_addChildren leads
  · rw [added]
    exact leads_addChildren (leads_append_key.mpr leads)

/-- When every sibling is kept, everything that is recorded while something is open is
there afterwards, or something like it is. -/
theorem exists_like_commit (isOpen : builder.stack ≠ []) (member : id ∈ batch) :
    ∃ key child, (builder.commit .all batch).edges.Leads key child ∧
      (builder.entry child).sameSite (builder.entry id) = true := by
  rcases commit_cases .all builder batch with
    ⟨empty, _⟩ | ⟨key, isKey, added⟩ | ⟨top, added⟩
  · exact absurd empty isOpen
  · rw [added]
    obtain ⟨child, leads, isLike⟩ := exists_like_addChildren isKey member
    exact ⟨key, child, leads, isLike⟩
  · rw [added]
    obtain ⟨child, leads, isLike⟩ := @exists_like_addChildren
      { builder with edges := builder.edges ++ [(top, [])] } top id batch (by simp) member
    exact ⟨top, child, leads, isLike⟩

theorem children_commit_ne_nil {other : Nat} (some : builder.edges.children other ≠ []) :
    (builder.commit mode batch).edges.children other ≠ [] := by
  rcases commit_cases mode builder batch with ⟨_, same⟩ | ⟨key, _, added⟩ | ⟨top, added⟩
  · rw [same]
    exact some
  · rw [added]
    exact children_addChildren_ne_nil some
  · rw [added]
    apply children_addChildren_ne_nil
    cases found : List.lookup other builder.edges with
    | none => simp [Edges.children, found] at some
    | some recorded => simpa [Edges.children, List.lookup_append, found] using some

/-- The first batch of all gives the entry on top of the stack its first child. -/
theorem children_commit_of_no_edges {top : Nat} {rest : List Nat}
    (noEdges : builder.edges = []) (isTop : builder.stack = top :: rest)
    (given : batch ≠ []) : (builder.commit mode batch).edges.children top ≠ [] := by
  have noKey : builder.keyLike? top = none := by simp [keyLike?, noEdges]
  simp only [commit, isTop, noKey]
  apply children_addChildren_of_nil
  · simp [Edges.isKey, noEdges]
  · simp [Edges.children, noEdges]
  · exact kept_ne_nil given

/-- Closing changes what is open and nothing else, and always leaves something open. -/
theorem exit_frame (isOpen : builder.stack ≠ []) :
    ∃ stack, builder.exit = { builder with stack := stack } ∧ stack ≠ [] ∧
      ∀ root, builder.stack = [root] → stack = [root] := by
  match isStack : builder.stack with
  | [] => exact absurd isStack isOpen
  | [top] =>
      have same : builder.exit = builder := by simp only [exit, isStack]
      refine ⟨builder.stack, same, isOpen, ?_⟩
      intro root single
      rw [isStack, single]
  | top :: next :: rest =>
      refine ⟨next :: rest, by simp [exit, isStack], List.cons_ne_nil next rest, ?_⟩
      intro root single
      cases single

/-! ## Entries and their numbers -/

@[simp] theorem allocate_toList {entries : List Entry} :
    (builder.allocate entries).entries.toList = builder.entries.toList ++ entries := by
  simp [allocate]

@[simp] theorem size_allocate {entries : List Entry} :
    (builder.allocate entries).entries.size = builder.entries.size + entries.length := by
  rw [← Array.length_toList, allocate_toList, List.length_append, Array.length_toList]

theorem entry_eq_getElem? (builder : GraphBuilder) (id : Nat) :
    builder.entry id = builder.entries.toList[id]?.getD default := by
  simp [entry]

theorem entry_allocate {entries : List Entry} (bound : id < builder.entries.size) :
    (builder.allocate entries).entry id = builder.entry id := by
  simp only [entry_eq_getElem?, allocate_toList]
  rw [List.getElem?_append_left (by simpa using bound)]

/-- The entries of a batch are found under the numbers that were next. -/
theorem exists_fresh_entry {entries : List Entry} {entry : Entry} (member : entry ∈ entries) :
    ∃ id ∈ builder.freshIds entries.length, (builder.allocate entries).entry id = entry := by
  obtain ⟨position, found⟩ := List.mem_iff_getElem?.mp member
  have bound := (List.getElem?_eq_some_iff.mp found).1
  refine ⟨builder.entries.size + position, ?_, ?_⟩
  · simp only [freshIds, List.mem_range'_1]
    omega
  · rw [entry_eq_getElem?, allocate_toList, List.getElem?_append_right (by simp)]
    simp [found]

end GraphBuilder

end TypeTrace.Flow
