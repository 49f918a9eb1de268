import TypeTrace.Proofs.Flow.Content

/-!
# Going down a dependency map

A finished map branches like a tree below its root: an entry is the child of one other at
most, children come later than what they were found under, and keys differ in their labels
(`Branching`).  So the entries below two siblings have nothing in common.

A descent lists the children of an entry and then what is below some of them.  Each entry is
listed once, whichever children are chosen to go on from, and the list is complete as soon as
the descent may go as deep as there are keys (`mem_descent`).

Views go down a map too, but they pass over what has a label that was shown before.  `Clear`
says that this does not happen below some entries, and goes on to hold while a view works
through them one after the other.
-/

namespace TypeTrace.Flow

namespace DependencyGraph

open Relation

/-- Whether an entry is a child of another one. -/
def Edge (graph : DependencyGraph) (parent child : Nat) : Prop :=
  child ∈ graph.children parent

/-- A map that branches like a tree below its root. -/
structure Branching (graph : DependencyGraph) : Prop where
  orphan : ∀ parent, ¬ graph.Edge parent graph.root
  ascending : ∀ {parent child}, graph.Edge parent child → parent < child
  single_parent : ∀ {parent other child}, graph.Edge parent child →
    graph.Edge other child → parent = other
  siblings : ∀ id, (graph.children id).Nodup
  labels_differ : ∀ {key other}, graph.isKey key = true → graph.isKey other = true →
    graph.label key = graph.label other → key = other
  /-- No key is without children. -/
  fruitful : ∀ key, graph.isKey key = true → graph.children key ≠ []

variable {graph : DependencyGraph} {parent first second id key found : Nat}

/-- Only keys have children. -/
theorem Edge.isKey (edge : graph.Edge parent id) : graph.isKey parent = true := by
  cases known : List.lookup parent graph.edges with
  | none => simp [Edge, children, Edges.children, known] at edge
  | some children => simp [DependencyGraph.isKey, Edges.isKey, known]

theorem children_of_not_isKey (leaf : ¬ graph.isKey id = true) : graph.children id = [] := by
  apply List.eq_nil_iff_forall_not_mem.mpr
  intro child member
  exact leaf (Edge.isKey member)

/-! ## Paths -/

namespace Branching

theorem lt_of_below (branching : graph.Branching) (below : TransGen graph.Edge first second) :
    first < second := by
  induction below with
  | single edge => exact branching.ascending edge
  | tail _ edge ih => exact ih.trans (branching.ascending edge)

theorem le_of_within (branching : graph.Branching)
    (within : ReflTransGen graph.Edge first second) : first ≤ second := by
  rcases reflTransGen_iff_eq_or_transGen.mp within with rfl | below
  · exact Nat.le_refl _
  · exact Nat.le_of_lt (branching.lt_of_below below)

/-- What is below an entry is below its parent or is the parent's child. -/
theorem within_of_below (branching : graph.Branching) (edge : graph.Edge parent second)
    (below : TransGen graph.Edge first second) : ReflTransGen graph.Edge first parent := by
  obtain ⟨last, within, edgeOther⟩ := TransGen.tail'_iff.mp below
  cases branching.single_parent edge edgeOther
  exact within

/-- Of two entries above a third, one is above the other. -/
theorem within_or_within (branching : graph.Branching)
    (left : ReflTransGen graph.Edge first id) (right : ReflTransGen graph.Edge second id) :
    ReflTransGen graph.Edge first second ∨ ReflTransGen graph.Edge second first := by
  have unique : Relator.RightUnique (Function.swap graph.Edge) :=
    fun _ _ _ edge other => branching.single_parent edge other
  rcases ReflTransGen.total_of_right_unique unique (reflTransGen_swap.mpr left)
    (reflTransGen_swap.mpr right) with above | above
  · exact .inr (reflTransGen_swap.mp above)
  · exact .inl (reflTransGen_swap.mp above)

theorem not_below_sibling (branching : graph.Branching) (left : graph.Edge parent first)
    (right : graph.Edge parent second) : ¬ TransGen graph.Edge first second := by
  intro below
  have above := branching.le_of_within (branching.within_of_below right below)
  exact Nat.not_lt.mpr above (branching.ascending left)

/-- Entries that have nothing below them in common, nor each other. -/
def Apart (graph : DependencyGraph) (first second : Nat) : Prop :=
  ∀ id, ReflTransGen graph.Edge first id → ¬ ReflTransGen graph.Edge second id

theorem siblings_apart (branching : graph.Branching) (left : graph.Edge parent first)
    (right : graph.Edge parent second) (differ : first ≠ second) :
    Apart graph first second := by
  intro id withinFirst withinSecond
  rcases branching.within_or_within withinFirst withinSecond with above | above
  · rcases reflTransGen_iff_eq_or_transGen.mp above with same | below
    · exact differ same.symm
    · exact branching.not_below_sibling left right below
  · rcases reflTransGen_iff_eq_or_transGen.mp above with same | below
    · exact differ same
    · exact branching.not_below_sibling right left below

theorem pairwise_apart (branching : graph.Branching) {ids : List Nat} (distinct : ids.Nodup)
    (edges : ∀ child ∈ ids, graph.Edge parent child) : ids.Pairwise (Apart graph) := by
  refine List.Pairwise.imp_of_mem ?_ distinct
  intro first second isFirst isSecond differ
  exact branching.siblings_apart (edges first isFirst) (edges second isSecond) differ

end Branching

/-! ## Descents -/

/-- The children of an entry, and then what is listed below those that are chosen to go on
from, at most `depth` levels of it. -/
def descent (graph : DependencyGraph) (chosen : List Nat → List Nat) :
    (depth : Nat) → Nat → List Nat
  | 0, _ => []
  | depth + 1, id =>
      graph.children id ++
        (chosen (graph.children id)).flatMap (descent graph chosen depth)

/-- A way to choose from entries without repeating them. -/
structure Choice (chosen : List Nat → List Nat) : Prop where
  subset : ∀ ids, chosen ids ⊆ ids
  distinct : ∀ ids, ids.Nodup → (chosen ids).Nodup

theorem Choice.all : Choice fun ids => ids where
  subset := fun _ => List.Subset.refl _
  distinct := fun _ distinct => distinct

/-- What a descent lists that goes on from every child. -/
def below (graph : DependencyGraph) : (depth id : Nat) → List Nat :=
  graph.descent fun ids => ids

/-- Going on from an entry to a child that is chosen. -/
def Passes (graph : DependencyGraph) (chosen : List Nat → List Nat) (parent child : Nat) :
    Prop :=
  child ∈ chosen (graph.children parent)

variable {chosen : List Nat → List Nat}

theorem descent_of_not_isKey (choice : Choice chosen) (leaf : ¬ graph.isKey id = true)
    (depth : Nat) : graph.descent chosen depth id = [] := by
  cases depth with
  | zero => rfl
  | succ depth =>
      have noChoice : chosen [] = [] := List.subset_nil.mp (choice.subset [])
      rw [descent, children_of_not_isKey leaf, noChoice]
      rfl

theorem below_of_mem_descent (choice : Choice chosen) {depth : Nat}
    (member : found ∈ graph.descent chosen depth id) : TransGen graph.Edge id found := by
  induction depth generalizing id with
  | zero => cases member
  | succ depth ih =>
      rcases List.mem_append.mp member with isChild | further
      · exact .single isChild
      · obtain ⟨child, isChosen, inside⟩ := List.mem_flatMap.mp further
        exact .head (choice.subset _ isChosen) (ih inside)

theorem Branching.nodup_descent (branching : graph.Branching) (choice : Choice chosen)
    (depth id : Nat) : (graph.descent chosen depth id).Nodup := by
  induction depth generalizing id with
  | zero => exact List.nodup_nil
  | succ depth ih =>
      have isChild : ∀ child ∈ chosen (graph.children id), graph.Edge id child :=
        fun child member => choice.subset _ member
      rw [descent, List.nodup_append]
      refine ⟨branching.siblings id, ?_, ?_⟩
      · rw [List.nodup_flatMap]
        refine ⟨fun child _ => ih child, ?_⟩
        refine (branching.pairwise_apart (choice.distinct _ (branching.siblings id))
          isChild).imp ?_
        intro left right apart found inLeft inRight
        exact apart found (below_of_mem_descent choice inLeft).to_reflTransGen
          (below_of_mem_descent choice inRight).to_reflTransGen
      · rintro sibling isSibling _ further rfl
        obtain ⟨child, isChosen, inside⟩ := List.mem_flatMap.mp further
        exact branching.not_below_sibling (isChild child isChosen) isSibling
          (below_of_mem_descent choice inside)

/-! ## Descents that are deep enough -/

/-- The number of keys that an entry and what comes later can be. -/
def levels (graph : DependencyGraph) (id : Nat) : Nat :=
  (graph.keys.filter (id ≤ ·)).length

theorem levels_le (graph : DependencyGraph) (id : Nat) :
    graph.levels id ≤ graph.edges.length := by
  have atMost := List.length_filter_le (fun key => decide (id ≤ key)) graph.keys
  simpa [levels, keys] using atMost

theorem levels_pos (isKey : graph.isKey id = true) : 0 < graph.levels id := by
  apply List.length_pos_of_mem (a := id)
  exact List.mem_filter.mpr ⟨Edges.isKey_iff.mp isKey, by simp⟩

theorem levels_lt (isKey : graph.isKey id = true) (later : id < key) :
    graph.levels key < graph.levels id := by
  have refined : graph.keys.filter (key ≤ ·) =
      (graph.keys.filter (id ≤ ·)).filter (key ≤ ·) := by
    rw [List.filter_filter]
    apply List.filter_congr
    intro other _
    rw [Bool.eq_iff_iff, Bool.and_eq_true, decide_eq_true_iff, decide_eq_true_iff]
    omega
  rw [levels, refined, levels, List.length_filter_lt_length_iff_exists]
  refine ⟨id, List.mem_filter.mpr ⟨Edges.isKey_iff.mp isKey, by simp⟩, ?_⟩
  simpa using later

/-- A descent that is deep enough lists all children of the entries it comes to. -/
theorem Branching.mem_descent (branching : graph.Branching) (choice : Choice chosen)
    {depth : Nat} (enough : graph.levels id ≤ depth) :
    found ∈ graph.descent chosen depth id ↔
      ∃ last, ReflTransGen (graph.Passes chosen) id last ∧ graph.Edge last found := by
  have isEdge {parent child : Nat} (passes : graph.Passes chosen parent child) :
      graph.Edge parent child := choice.subset _ passes
  induction depth generalizing id with
  | zero =>
      refine iff_of_false List.not_mem_nil ?_
      rintro ⟨last, path, edge⟩
      have isKey : graph.isKey id = true := by
        rcases path.cases_head with rfl | ⟨child, passes, _⟩
        · exact edge.isKey
        · exact (isEdge passes).isKey
      exact Nat.not_le.mpr (levels_pos isKey) enough
  | succ depth ih =>
      have deeper {child : Nat} (edge : graph.Edge id child) : graph.levels child ≤ depth :=
        Nat.le_of_lt_succ ((levels_lt edge.isKey (branching.ascending edge)).trans_le enough)
      rw [descent, List.mem_append, List.mem_flatMap]
      constructor
      · rintro (isChild | ⟨child, isChosen, inside⟩)
        · exact ⟨id, .refl, isChild⟩
        · obtain ⟨last, path, edge⟩ := (ih (deeper (isEdge isChosen))).mp inside
          exact ⟨last, .head isChosen path, edge⟩
      · rintro ⟨last, path, edge⟩
        rcases path.cases_head with rfl | ⟨child, isChosen, rest⟩
        · exact .inl edge
        · exact .inr ⟨child, isChosen, (ih (deeper (isEdge isChosen))).mpr ⟨last, rest, edge⟩⟩

theorem Branching.mem_below (branching : graph.Branching) {depth : Nat}
    (enough : graph.levels id ≤ depth) :
    found ∈ graph.below depth id ↔ TransGen graph.Edge id found :=
  (branching.mem_descent .all enough).trans TransGen.tail'_iff.symm

/-! ## Labels that have been shown -/

/-- None of some labels belongs to a key at or below one of some entries. -/
def Clear (graph : DependencyGraph) (ids : List Nat) (shown : List String) : Prop :=
  ∀ id ∈ ids, ∀ key, ReflTransGen graph.Edge id key → graph.isKey key = true →
    graph.label key ∉ shown

/-- Some labels and others, each of which belongs to a key at or below an entry. -/
def Grows (graph : DependencyGraph) (id : Nat) (shown later : List String) : Prop :=
  ∀ label ∈ later, label ∈ shown ∨
    ∃ key, ReflTransGen graph.Edge id key ∧ graph.isKey key = true ∧ graph.label key = label

variable {shown between later : List String} {rest : List Nat}

theorem Clear.head (clear : graph.Clear (id :: rest) shown) : graph.Clear [id] shown := by
  intro first member
  rw [List.mem_singleton.mp member]
  exact clear id List.mem_cons_self

namespace Grows

theorem refl (graph : DependencyGraph) (id : Nat) (shown : List String) :
    graph.Grows id shown shown :=
  fun _ member => .inl member

theorem label (isKey : graph.isKey id = true) (shown : List String) :
    graph.Grows id shown (graph.label id :: shown) := by
  intro label member
  rcases List.mem_cons.mp member with rfl | known
  · exact .inr ⟨id, .refl, isKey, rfl⟩
  · exact .inl known

theorem trans (grows : graph.Grows id shown between) (further : graph.Grows id between later) :
    graph.Grows id shown later := by
  intro label member
  rcases further label member with known | below
  · exact grows label known
  · exact .inr below

theorem above (grows : graph.Grows id shown later) (within : ReflTransGen graph.Edge first id) :
    graph.Grows first shown later := by
  intro label member
  rcases grows label member with known | ⟨key, below, isKey, isLabel⟩
  · exact .inl known
  · exact .inr ⟨key, within.trans below, isKey, isLabel⟩

end Grows

theorem Branching.clear_children (branching : graph.Branching) (isKey : graph.isKey id = true)
    (clear : graph.Clear [id] shown) :
    graph.Clear (graph.children id) (graph.label id :: shown) := by
  intro child isChild key within keyed member
  rcases List.mem_cons.mp member with sameLabel | known
  · have same := branching.labels_differ keyed isKey sameLabel
    have later := branching.ascending isChild
    have above := branching.le_of_within within
    omega
  · exact clear id List.mem_cons_self key (.head isChild within) keyed known

/-- What was shown at or below one entry does not bear on those that are apart from it. -/
theorem Branching.clear_rest (branching : graph.Branching)
    (apart : (first :: rest).Pairwise (Branching.Apart graph))
    (clear : graph.Clear (first :: rest) shown) (grows : graph.Grows first shown later) :
    graph.Clear rest later := by
  intro id member key within keyed isShown
  rcases grows _ isShown with known | ⟨other, withinFirst, keyedOther, sameLabel⟩
  · exact clear id (List.mem_cons_of_mem first member) key within keyed known
  · cases branching.labels_differ keyedOther keyed sameLabel
    exact (List.pairwise_cons.mp apart).1 id member _ withinFirst within

end DependencyGraph

/-! ## Maps of resolutions -/

section Resolutions

variable {mode : SiblingCommit} {reported : List Event} {graph : DependencyGraph}

/-- Nothing is written down that holds no number. -/
theorem ne_nil_of_mem_batches {key : Nat} {batch : List Nat}
    (member : (key, batch) ∈ (journal reported).batches) : batch ≠ [] := by
  induction reported using List.reverseRecOn with
  | nil => cases member
  | append_singleton before event ih =>
      have isNew {stack ids : List Nat} (found : (key, batch) ∈ foundUnder stack ids) :
          batch ≠ [] := by
        obtain ⟨_, rfl, given⟩ := mem_foundUnder.mp found
        exact given
      rw [journal_concat] at member
      cases event with
      | exit => exact ih member
      | enter entry => exact (List.mem_append.mp member).elim ih isNew
      | emit entries => exact (List.mem_append.mp member).elim ih isNew

theorem Content.children_ne_nil (content : Content mode reported graph) {key : Nat}
    (isKey : graph.isKey key = true) : graph.children key ≠ [] := by
  obtain ⟨batch, others, isUnder⟩ :=
    List.exists_cons_of_ne_nil ((content.isKey key).mp isKey)
  have given : batch ≠ [] := by
    have member : (key, batch) ∈ (journal reported).batches := by
      rw [← Batches.mem_under, isUnder]
      exact List.mem_cons_self
    exact ne_nil_of_mem_batches member
  obtain ⟨id, isKept⟩ :=
    List.exists_mem_of_ne_nil _ (@GraphBuilder.kept_ne_nil mode batch given)
  have isAdmitted : id ∈ admitted mode ((journal reported).batches.under key) := by
    rw [isUnder]
    exact List.mem_append_left _ isKept
  obtain ⟨other, member, _⟩ := @exists_alike graph.entry _ id isAdmitted
  rw [content.children]
  exact List.ne_nil_of_mem member

/-- The map of a resolution branches like a tree below its root. -/
theorem branching_of_events (mode : SiblingCommit) (oracle : Oracle) (limit : Option Nat)
    (unit : SourceUnit) (element : Element) :
    (graphOf mode (events oracle limit unit element)).Branching := by
  have content := content_of_events mode oracle limit unit element
  have sound := (run_wellFormed mode (events oracle limit unit element)).sound
  constructor
  · intro parent edge
    exact Nat.not_lt_zero parent (sound.ascending parent 0 (Edges.leads_of_mem_children edge)).1
  · intro parent child edge
    exact (sound.ascending parent child (Edges.leads_of_mem_children edge)).1
  · intro parent other child edge edgeOther
    exact sound.single_parent (Edges.leads_of_mem_children edge)
      (Edges.leads_of_mem_children edgeOther)
  · intro id
    rw [content.children]
    refine (eraseDupsBy_apart _).imp ?_
    rintro earlier _ unlike rfl
    cases unlike.symm.trans (alike_self _ _)
  · intro key other isKey isOther sameLabel
    exact List.inj_on_of_nodup_map sound.labelled (Edges.isKey_iff.mp isKey)
      (Edges.isKey_iff.mp isOther) sameLabel
  · intro key isKey
    exact content.children_ne_nil isKey

/-- A resolution fails for want of an element, or it gives a map that branches. -/
theorem resolveGraph_branching (project : Project) (oracle : Oracle) (config : ResolverConfig)
    (anchor : Anchor) :
    (∃ error, locateAnchor project anchor = .error error ∧
      resolveGraph project oracle config anchor = .error error) ∨
    (∃ graph, resolveGraph project oracle config anchor = .ok graph ∧ graph.Branching) := by
  cases located : locateAnchor project anchor with
  | error error =>
      refine .inl ⟨error, rfl, ?_⟩
      simp [resolveGraph, eventsAt, located, bind, Except.bind]
  | ok place =>
      obtain ⟨unit, element⟩ := place
      exact .inr ⟨_, resolveGraph_of_located located oracle config,
        branching_of_events config.siblingCommit oracle config.unionLimit unit element⟩

end Resolutions

end TypeTrace.Flow
