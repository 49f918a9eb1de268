import TypeTrace.Proofs.Flow.Descent
import TypeTrace.Proofs.Flow.Reachability
import TypeTrace.View.Tree

/-!
# What is collected from a dependency map

The entries of a map are collected from the root downwards, and a key is passed over if its
label was come across before.  In a map that branches this never happens: the labels come
across so far belong to keys elsewhere in the map, and keys differ in their labels.  So what
is collected is what a descent lists that knows no labels (`collect_eq`), which is everything
below the root.
-/

namespace TypeTrace.View

open Relation TypeTrace.Flow TypeTrace.Flow.DependencyGraph

variable {graph : DependencyGraph} {top id found : Nat} {ids : List Nat}
variable {shown : List String}

/-! ## No key is passed over -/

/-- Entries that are apart are worked through as if each of them were the only one. -/
theorem collectEach_eq (branching : graph.Branching)
    {collect : Nat → List String → Collection} {depth : Nat}
    (lists : ∀ id shown, graph.isKey id = true → graph.Clear [id] shown →
      (collect id shown).ids = graph.below depth id ∧
        graph.Grows id shown (collect id shown).shown)
    (within : ∀ id ∈ ids, ReflTransGen graph.Edge top id)
    (apart : ids.Pairwise (Branching.Apart graph)) (clear : graph.Clear ids shown) :
    (collectEach graph collect ids shown).ids = ids.flatMap (graph.below depth) ∧
      graph.Grows top shown (collectEach graph collect ids shown).shown := by
  induction ids generalizing shown with
  | nil => exact ⟨rfl, .refl graph top shown⟩
  | cons first rest ih =>
      obtain ⟨listed, grows⟩ :
          (if graph.isKey first then collect first shown else ⟨[], shown⟩).ids =
              graph.below depth first ∧
            graph.Grows first shown
              (if graph.isKey first then collect first shown else ⟨[], shown⟩).shown := by
        split
        next isKey => exact lists first shown isKey clear.head
        next leaf => exact ⟨(descent_of_not_isKey .all leaf depth).symm, .refl graph first shown⟩
      have others := ih (fun id member => within id (List.mem_cons_of_mem first member))
        apart.of_cons (branching.clear_rest apart clear grows)
      constructor
      · rw [List.flatMap_cons, ← listed, ← others.1]
        rfl
      · exact (grows.above (within first List.mem_cons_self)).trans others.2

/-- What is collected below a key whose label is new is what a descent lists. -/
theorem collect_eq (branching : graph.Branching) (depth : Nat) (isKey : graph.isKey id = true)
    (clear : graph.Clear [id] shown) :
    (collect graph depth id shown).ids = graph.below depth id ∧
      graph.Grows id shown (collect graph depth id shown).shown := by
  induction depth generalizing id shown with
  | zero => exact ⟨rfl, .refl graph id shown⟩
  | succ depth ih =>
      have isNew : graph.label id ∉ shown := clear id List.mem_cons_self id .refl isKey
      have each := collectEach_eq branching
        (fun _ _ isKey clear => ih isKey clear)
        (fun child isChild => .single isChild)
        (branching.pairwise_apart (branching.siblings id) fun _ isChild => isChild)
        (branching.clear_children isKey clear)
      simp only [collect, if_neg isNew]
      constructor
      · exact congrArg (graph.children id ++ ·) each.1
      · exact (Grows.label isKey shown).trans each.2

/-- What is collected from the root is what a descent from there lists. -/
theorem collect_root_eq (branching : graph.Branching) (depth : Nat) :
    (collect graph (depth + 1) graph.root []).ids = graph.below (depth + 1) graph.root := by
  by_cases isKey : graph.isKey graph.root = true
  · refine (collect_eq branching (depth + 1) isKey ?_).1
    intro id _ key _ _ member
    cases member
  · have nothing := descent_of_not_isKey .all isKey (depth + 1)
    rw [below, nothing]
    simp [collect, children_of_not_isKey isKey, collectEach]

/-! ## Where the children of an entry stand -/

/-- The children of an entry stand together in a descent that comes by it, in front of all
that is below them. -/
theorem below_families (branching : graph.Branching) {depth : Nat}
    (enough : graph.levels top ≤ depth) (within : ReflTransGen graph.Edge top id) :
    ∃ before after, graph.below depth top = before ++ graph.children id ++ after ∧
      ∀ child ∈ graph.children id, ∀ found, TransGen graph.Edge child found → found ∈ after := by
  induction depth generalizing top with
  | zero =>
      have leaf : ¬ graph.isKey top = true := by
        intro isKey
        exact Nat.not_le.mpr (levels_pos isKey) enough
      rcases within.cases_head with rfl | ⟨child, edge, _⟩
      · refine ⟨[], [], ?_, ?_⟩
        · rw [children_of_not_isKey leaf]
          rfl
        · rw [children_of_not_isKey leaf]
          intro child isChild
          cases isChild
      · exact absurd edge.isKey leaf
  | succ depth ih =>
      have deeper {child : Nat} (edge : graph.Edge top child) : graph.levels child ≤ depth :=
        Nat.le_of_lt_succ ((levels_lt edge.isKey (branching.ascending edge)).trans_le enough)
      have shape : graph.below (depth + 1) top =
          graph.children top ++ (graph.children top).flatMap (graph.below depth) := rfl
      rcases within.cases_head with rfl | ⟨child, edge, inside⟩
      · refine ⟨[], _, shape, ?_⟩
        intro child isChild found below
        exact List.mem_flatMap.mpr
          ⟨child, isChild, (branching.mem_below (deeper isChild)).mpr below⟩
      · obtain ⟨before, after, isBelow, follow⟩ := ih (deeper edge) inside
        obtain ⟨earlier, others, isSplit⟩ := List.append_of_mem edge
        refine ⟨graph.children top ++ (earlier.flatMap (graph.below depth) ++ before),
          after ++ others.flatMap (graph.below depth), ?_, ?_⟩
        · rw [shape]
          nth_rewrite 2 [isSplit]
          rw [List.flatMap_append, List.flatMap_cons, isBelow]
          simp only [List.append_assoc]
        · intro child isChild found below
          exact List.mem_append_left _ (follow child isChild found below)

/-! ## Maps of resolutions -/

/-- What is collected from a map, by the numbers of the entries. -/
structure Collected (graph : DependencyGraph) (ids : List Nat) : Prop where
  once : ids.Nodup
  /-- Everything is collected that edges lead to from the root, and nothing else. -/
  complete : ∀ id, id ∈ ids ↔ TransGen graph.Edge graph.root id
  /-- The children of an entry stand together, in front of all that is below them. -/
  families : ∀ id, graph.Reachable id → ∃ before after,
    ids = before ++ graph.children id ++ after ∧
      ∀ child ∈ graph.children id, ∀ found, TransGen graph.Edge child found → found ∈ after
  /-- No label keeps anything from being collected. -/
  unguarded : ids = graph.below (graph.edges.length + 1) graph.root

theorem collected_of_branching (branching : graph.Branching) :
    Collected graph (graph.below (graph.edges.length + 1) graph.root) := by
  have enough := Nat.le_succ_of_le (levels_le graph graph.root)
  constructor
  · exact branching.nodup_descent .all _ _
  · intro id
    exact branching.mem_below enough
  · intro id reached
    exact below_families branching enough reached
  · rfl

/-- For every project, oracle, configuration and anchor, a resolution fails for want of an
element, or it gives a map from which everything below the root is collected. -/
theorem resolveGraph_collected (project : Project) (oracle : Oracle) (config : ResolverConfig)
    (anchor : Anchor) :
    (∃ error, locateAnchor project anchor = .error error ∧
      resolveGraph project oracle config anchor = .error error) ∨
    (∃ graph ids, resolveGraph project oracle config anchor = .ok graph ∧
      collectTypes graph = ids.map graph.entry ∧ Collected graph ids) := by
  rcases resolveGraph_branching project oracle config anchor with
    failed | ⟨graph, isOk, branching⟩
  · exact .inl failed
  · refine .inr ⟨graph, _, isOk, ?_, collected_of_branching branching⟩
    rw [collectTypes, collect_root_eq branching]

end TypeTrace.View
