import TypeTrace.Proofs.View.Collection
import TypeTrace.Proofs.View.Groups

/-!
# What a type tree shows of a dependency map

A tree shows the children of a key in groups of one label, and goes on from the first member
of a group only.  What it shows is therefore what a descent lists that goes on from the first
entry of each label (`tree_sites_perm`), and what is collected from the map is what a descent
lists that goes on from every entry.  The difference is what stands below a key that has an
earlier sibling of its label.  Such a sibling is a type with the name of a variable.
-/

namespace TypeTrace.View

open Relation TypeTrace.Flow TypeTrace.Flow.DependencyGraph

variable {graph : DependencyGraph} {top parent child id key : Nat} {shown : List String}

/-! ## Sites -/

/-- What is shown of an entry: its label and its line. -/
def site (entry : Entry) : String × Int :=
  (entry.label, entry.line)

mutual

/-- The type of a node on each of its lines, and then what is below the node. -/
def TreeNode.sites : TreeNode → List (String × Int)
  | ⟨_, typeLabel, _, lines, children⟩ =>
      lines.map (fun line => (typeLabel, line)) ++ TreeNode.sitesAll children

/-- The sites of some nodes, one after the other. -/
def TreeNode.sitesAll : List TreeNode → List (String × Int)
  | [] => []
  | node :: rest => node.sites ++ TreeNode.sitesAll rest

end

/-- What a tree shows below its root. -/
def TypeTree.sites (tree : TypeTree) : List (String × Int) :=
  TreeNode.sitesAll tree.root.children

/-- The sites of entries that are given by their numbers. -/
def sitesOf (graph : DependencyGraph) (ids : List Nat) : List (String × Int) :=
  ids.map fun id => site (graph.entry id)

theorem sitesOf_append (graph : DependencyGraph) (first second : List Nat) :
    sitesOf graph (first ++ second) = sitesOf graph first ++ sitesOf graph second :=
  List.map_append

theorem site_collectTypes (graph : DependencyGraph) :
    (collectTypes graph).map site =
      sitesOf graph (collect graph (graph.edges.length + 1) graph.root []).ids := by
  rw [collectTypes, List.map_map]
  rfl

/-- The members of a group are shown with the label they have in common. -/
theorem sitesOf_group {label : String} {members : List Nat}
    (labelled : ∀ id ∈ members, graph.label id = label) :
    (members.map fun id => (graph.entry id).line).map (fun line => (label, line)) =
      sitesOf graph members := by
  rw [List.map_map]
  apply List.map_congr_left
  intro id member
  rw [← labelled id member]
  rfl

/-! ## What is drawn below a key -/

/-- The nodes of groups whose first members are apart show all members, and what is below
the first ones. -/
theorem expandGroups_sites (branching : graph.Branching)
    {expand : Nat → List String → Expansion} {depth : Nat}
    (draws : ∀ id shown, graph.isKey id = true → graph.Clear [id] shown →
      (TreeNode.sitesAll (expand id shown).nodes).Perm
          (sitesOf graph (graph.descent (leaders graph) depth id)) ∧
        graph.Grows id shown (expand id shown).shown)
    {pending : List (String × List Nat)}
    (labelled : ∀ group ∈ pending, ∀ id ∈ group.2, graph.label id = group.1)
    (within : ∀ id ∈ heads pending, ReflTransGen graph.Edge top id)
    (apart : (heads pending).Pairwise (Branching.Apart graph))
    (clear : graph.Clear (heads pending) shown) :
    (TreeNode.sitesAll (expandGroups graph expand pending shown).nodes).Perm
        (sitesOf graph (pending.flatMap (·.2) ++
          (heads pending).flatMap (graph.descent (leaders graph) depth))) ∧
      graph.Grows top shown (expandGroups graph expand pending shown).shown := by
  induction pending generalizing shown with
  | nil => exact ⟨.refl _, .refl graph top shown⟩
  | cons group rest ih =>
      obtain ⟨label, members⟩ := group
      have labelledRest := fun group member => labelled group (List.mem_cons_of_mem _ member)
      have shownHere := sitesOf_group (labelled _ List.mem_cons_self)
      cases members with
      | nil => exact ih labelledRest within apart clear
      | cons first others =>
          have isHeads : heads ((label, first :: others) :: rest) = first :: heads rest := rfl
          rw [isHeads] at within apart clear ⊢
          obtain ⟨inner, grows⟩ :
              (TreeNode.sitesAll (expandFirst graph expand (first :: others) shown).nodes).Perm
                  (sitesOf graph (graph.descent (leaders graph) depth first)) ∧
                graph.Grows first shown
                  (expandFirst graph expand (first :: others) shown).shown := by
            rw [expandFirst]
            split
            next isKey => exact draws first shown isKey clear.head
            next leaf =>
              rw [descent_of_not_isKey (leaders_choice graph) leaf]
              exact ⟨.refl _, .refl graph first shown⟩
          obtain ⟨further, growsRest⟩ := ih labelledRest
            (fun id member => within id (List.mem_cons_of_mem first member))
            apart.of_cons (branching.clear_rest apart clear grows)
          constructor
          · simp only [expandGroups, TreeNode.sitesAll, TreeNode.sites, shownHere,
              List.flatMap_cons, sitesOf_append, List.append_assoc] at further ⊢
            refine List.Perm.append_left _ ((inner.append further).trans ?_)
            exact List.perm_append_comm_assoc _ _ _
          · exact (grows.above (within first List.mem_cons_self)).trans growsRest

/-- Below a key whose label is new, a tree shows what a descent lists that goes on from the
first entry of each label. -/
theorem expand_sites (branching : graph.Branching) (depth : Nat)
    (isKey : graph.isKey id = true) (clear : graph.Clear [id] shown) :
    (TreeNode.sitesAll (expand graph depth id shown).nodes).Perm
        (sitesOf graph (graph.descent (leaders graph) depth id)) ∧
      graph.Grows id shown (expand graph depth id shown).shown := by
  induction depth generalizing id shown with
  | zero => exact ⟨.refl _, .refl graph id shown⟩
  | succ depth ih =>
      have isNew : graph.label id ∉ shown := clear id List.mem_cons_self id .refl isKey
      have isChild : ∀ first ∈ leaders graph (graph.children id), graph.Edge id first :=
        fun first member => (leaders_choice graph).subset _ member
      have clearChildren := branching.clear_children isKey clear
      obtain ⟨inner, grows⟩ := expandGroups_sites branching
        (fun _ _ isKey clear => ih isKey clear)
        (fun _ isGroup _ member => label_of_mem_groups isGroup member)
        (fun first member => .single (isChild first member))
        (branching.pairwise_apart
          ((leaders_choice graph).distinct _ (branching.siblings id)) isChild)
        (fun first member => clearChildren first (isChild first member))
      simp only [expand, if_neg isNew]
      constructor
      · refine inner.trans (List.Perm.map _ ?_)
        exact (groups_perm graph (graph.children id)).append_right _
      · exact (Grows.label isKey shown).trans grows

/-- What a descent from the root lists that goes on from the first entry of each label. -/
def drawn (graph : DependencyGraph) : List Nat :=
  graph.descent (leaders graph) (graph.edges.length + 1) graph.root

theorem tree_sites_perm (branching : graph.Branching) :
    (TypeTree.ofGraph graph).sites.Perm (sitesOf graph (drawn graph)) := by
  by_cases isKey : graph.isKey graph.root = true
  · refine (expand_sites branching (graph.edges.length + 1) isKey ?_).1
    intro id _ key _ _ member
    cases member
  · rw [drawn, descent_of_not_isKey (leaders_choice graph) isKey]
    simp [TypeTree.sites, TypeTree.ofGraph, expand, children_of_not_isKey isKey, groups,
      expandGroups, TreeNode.sitesAll, sitesOf]

/-! ## What is not drawn -/

/-- An entry with an earlier sibling of its label. -/
def Shadowed (graph : DependencyGraph) (id : Nat) : Prop :=
  ∃ parent before after, graph.children parent = before ++ id :: after ∧
    ∃ twin ∈ before, graph.label twin = graph.label id

theorem Shadowed.exists_edge (shadowed : Shadowed graph id) :
    ∃ parent, graph.Edge parent id := by
  obtain ⟨parent, before, after, isSplit, _⟩ := shadowed
  refine ⟨parent, ?_⟩
  rw [Edge, isSplit]
  exact List.mem_append_right before List.mem_cons_self

/-- A tree goes on from the children that have no earlier sibling of their label. -/
theorem passes_leaders_iff (branching : graph.Branching) :
    graph.Passes (leaders graph) parent child ↔
      graph.Edge parent child ∧ ¬ Shadowed graph child := by
  constructor
  · intro passes
    refine ⟨(leaders_choice graph).subset _ passes, ?_⟩
    rintro ⟨other, otherBefore, otherAfter, isOther, twin, isEarlier, sameLabel⟩
    obtain ⟨before, after, isSplit, differ⟩ := mem_leaders.mp passes
    have edge : graph.Edge parent child := (leaders_choice graph).subset _ passes
    have edgeOther : graph.Edge other child := by
      rw [Edge, isOther]
      exact List.mem_append_right otherBefore List.mem_cons_self
    cases branching.single_parent edge edgeOther
    -- The child occurs once among its siblings, so both splits have the same front.
    have distinct := branching.siblings parent
    rw [isSplit, List.nodup_middle, List.nodup_cons, List.mem_append, not_or] at distinct
    have sameFront := (List.append_cons_inj_of_notMem distinct.1.1 distinct.1.2).mp
      (isSplit.symm.trans isOther)
    exact differ twin (sameFront.1 ▸ isEarlier) sameLabel
  · rintro ⟨edge, clear⟩
    obtain ⟨before, after, isSplit⟩ := List.append_of_mem edge
    refine mem_leaders.mpr ⟨before, after, isSplit, ?_⟩
    intro twin isEarlier sameLabel
    exact clear ⟨parent, before, after, isSplit, twin, isEarlier, sameLabel⟩

/-- A tree comes to the entries that are not shadowed and not below anything that is. -/
theorem passed_iff (branching : graph.Branching) :
    ReflTransGen (graph.Passes (leaders graph)) graph.root id ↔
      ReflTransGen graph.Edge graph.root id ∧
        ∀ key, Shadowed graph key → ¬ ReflTransGen graph.Edge key id := by
  constructor
  · intro path
    induction path with
    | refl =>
        refine ⟨.refl, ?_⟩
        intro key shadowed within
        rcases within.cases_tail with isRoot | ⟨last, _, edge⟩
        · obtain ⟨parent, edge⟩ := shadowed.exists_edge
          exact branching.orphan parent (isRoot ▸ edge)
        · exact branching.orphan last edge
    | tail _ passes ih =>
        obtain ⟨edge, clear⟩ := (passes_leaders_iff branching).mp passes
        refine ⟨ih.1.tail edge, ?_⟩
        intro key shadowed within
        rcases reflTransGen_iff_eq_or_transGen.mp within with same | below
        · exact clear (same ▸ shadowed)
        · exact ih.2 key shadowed (branching.within_of_below edge below)
  · rintro ⟨path, clear⟩
    induction path with
    | refl => exact .refl
    | tail _ edge ih =>
        refine .tail (ih fun key shadowed within => clear key shadowed (within.tail edge)) ?_
        exact (passes_leaders_iff branching).mpr
          ⟨edge, fun shadowed => clear _ shadowed .refl⟩

theorem mem_drawn (branching : graph.Branching) :
    id ∈ drawn graph ↔ TransGen graph.Edge graph.root id ∧
      ∀ key, Shadowed graph key → ¬ TransGen graph.Edge key id := by
  have enough := Nat.le_succ_of_le (levels_le graph graph.root)
  rw [drawn, branching.mem_descent (leaders_choice graph) enough]
  constructor
  · rintro ⟨last, path, edge⟩
    obtain ⟨within, clear⟩ := (passed_iff branching).mp path
    refine ⟨.tail' within edge, ?_⟩
    intro key shadowed below
    exact clear key shadowed (branching.within_of_below edge below)
  · rintro ⟨below, clear⟩
    obtain ⟨last, within, edge⟩ := TransGen.tail'_iff.mp below
    refine ⟨last, (passed_iff branching).mpr ⟨within, ?_⟩, edge⟩
    intro key shadowed withinKey
    exact clear key shadowed (.tail' withinKey edge)

/-- The entries that are collected and not drawn. -/
def undrawn (graph : DependencyGraph) : List Nat :=
  (graph.below (graph.edges.length + 1) graph.root).filter (· ∉ drawn graph)

theorem mem_undrawn (branching : graph.Branching) :
    id ∈ undrawn graph ↔ TransGen graph.Edge graph.root id ∧
      ∃ key, Shadowed graph key ∧ TransGen graph.Edge key id := by
  have enough := Nat.le_succ_of_le (levels_le graph graph.root)
  rw [undrawn, List.mem_filter, branching.mem_below enough, decide_eq_true_iff,
    mem_drawn branching]
  simp only [not_and, not_forall, not_not, exists_prop]
  exact and_congr_right fun below => forall_prop_of_true below

/-- What is collected is what is drawn and what is not. -/
theorem below_perm (branching : graph.Branching) :
    (graph.below (graph.edges.length + 1) graph.root).Perm (drawn graph ++ undrawn graph) := by
  have enough := Nat.le_succ_of_le (levels_le graph graph.root)
  have once : (graph.below (graph.edges.length + 1) graph.root).Nodup :=
    branching.nodup_descent .all _ _
  have onceDrawn : (drawn graph).Nodup := branching.nodup_descent (leaders_choice graph) _ _
  have isDrawn : ((graph.below (graph.edges.length + 1) graph.root).filter
      (· ∈ drawn graph)).Perm (drawn graph) := by
    refine (List.perm_ext_iff_of_nodup (once.filter _) onceDrawn).mpr ?_
    intro id
    rw [List.mem_filter, decide_eq_true_iff, and_iff_right_iff_imp]
    intro member
    exact (branching.mem_below enough).mpr ((mem_drawn branching).mp member).1
  refine (List.filter_append_perm (· ∈ drawn graph) _).symm.trans (isDrawn.append ?_)
  simp [undrawn]

/-- Nothing is left out of a tree unless a key that can be reached is shadowed. -/
theorem undrawn_eq_nil_iff (branching : graph.Branching) :
    undrawn graph = [] ↔
      ∀ key, graph.Reachable key → graph.isKey key = true → ¬ Shadowed graph key := by
  rw [List.eq_nil_iff_forall_not_mem]
  constructor
  · intro none key reached isKey shadowed
    obtain ⟨child, edge⟩ := List.exists_mem_of_ne_nil _ (branching.fruitful key isKey)
    exact none child ((mem_undrawn branching).mpr
      ⟨.tail' reached edge, key, shadowed, .single edge⟩)
  · intro clear id member
    obtain ⟨below, key, shadowed, belowKey⟩ := (mem_undrawn branching).mp member
    obtain ⟨child, edge, _⟩ := TransGen.head'_iff.mp belowKey
    refine clear key ?_ edge.isKey shadowed
    rcases branching.within_or_within below.to_reflTransGen belowKey.to_reflTransGen with
      reached | above
    · exact reached
    · -- Nothing is above the root.
      rcases above.cases_tail with isRoot | ⟨last, _, edge⟩
      · exact isRoot ▸ .refl
      · exact absurd edge (branching.orphan last)

/-! ## Maps of resolutions -/

/-- What the tree of a map shows, compared with what is collected from the map. -/
structure Pictured (graph : DependencyGraph) (missing : List Nat) : Prop where
  /-- The same sites, each as often, but for some entries. -/
  collected : ((collectTypes graph).map site).Perm
    ((TypeTree.ofGraph graph).sites ++ sitesOf graph missing)
  once : missing.Nodup
  /-- What is missing is below an entry that has an earlier sibling of its label. -/
  shadowed : ∀ id, id ∈ missing ↔ TransGen graph.Edge graph.root id ∧
    ∃ key, Shadowed graph key ∧ TransGen graph.Edge key id
  agree : (TypeTree.ofGraph graph).sites.Perm ((collectTypes graph).map site) ↔
    ∀ key, graph.Reachable key → graph.isKey key = true → ¬ Shadowed graph key

theorem pictured_of_branching (branching : graph.Branching) :
    Pictured graph (undrawn graph) := by
  have collected : ((collectTypes graph).map site).Perm
      ((TypeTree.ofGraph graph).sites ++ sitesOf graph (undrawn graph)) := by
    rw [site_collectTypes, collect_root_eq branching]
    refine ((below_perm branching).map _).trans ?_
    rw [List.map_append]
    exact (tree_sites_perm branching).symm.append_right (sitesOf graph (undrawn graph))
  constructor
  · exact collected
  · exact (branching.nodup_descent .all _ _).filter _
  · intro id
    exact mem_undrawn branching
  · rw [← undrawn_eq_nil_iff branching]
    constructor
    · intro same
      have lengths := (same.trans collected).length_eq
      rw [List.length_append, sitesOf, List.length_map] at lengths
      exact List.eq_nil_of_length_eq_zero (Nat.add_eq_left.mp lengths.symm)
    · intro none
      rw [none] at collected
      simpa [sitesOf] using collected.symm

/-- For every project, oracle, configuration and anchor, a resolution fails for want of an
element, or it gives a map whose tree shows what is collected from it, except for what stands
below entries that have an earlier sibling of their label. -/
theorem resolveGraph_pictured (project : Project) (oracle : Oracle) (config : ResolverConfig)
    (anchor : Anchor) :
    (∃ error, locateAnchor project anchor = .error error ∧
      resolveGraph project oracle config anchor = .error error) ∨
    (∃ graph missing, resolveGraph project oracle config anchor = .ok graph ∧
      Pictured graph missing) := by
  rcases resolveGraph_branching project oracle config anchor with
    failed | ⟨graph, isOk, branching⟩
  · exact .inl failed
  · exact .inr ⟨graph, undrawn graph, isOk, pictured_of_branching branching⟩

/-! ## A type that is not drawn -/

/-- A variable that gets a number and, in the next line, the value of a variable called
`int`:
```
x = 1
x = int
int = 's'
``` -/
def namesake : SourceUnit where
  path := "m.py"
  text := "x = 1\nx = int\nint = 's'\n".toList
  suite := [
    .assign ⟨0, 5⟩ [.name ⟨0, 1⟩ "x" .store] (.constant ⟨4, 5⟩ .int),
    .assign ⟨6, 13⟩ [.name ⟨6, 7⟩ "x" .store] (.name ⟨10, 13⟩ "int" .load),
    .assign ⟨14, 23⟩ [.name ⟨14, 17⟩ "int" .store] (.constant ⟨20, 23⟩ .str)]

/-- What is found at the first `x`. -/
def namesakeGraph : DependencyGraph where
  entries := #[
    ⟨0, "x", .expr (.name ⟨0, 1⟩ "x" .store)⟩,
    ⟨0, "int", .expr (.constant ⟨4, 5⟩ .int)⟩,
    ⟨1, "int", .expr (.name ⟨10, 13⟩ "int" .load)⟩,
    ⟨2, "str", .expr (.constant ⟨20, 23⟩ .str)⟩]
  edges := [(0, [1, 2]), (2, [3])]
  root := 0

/-- The variable `int` is in the group of the type `int`, which comes first and has nothing
below it.  So the type of the variable is collected and not drawn. -/
theorem namesake_undrawn :
    resolveGraph ⟨[namesake]⟩ Builtin.oracle {} ⟨"m.py", 0⟩ = .ok namesakeGraph ∧
      (TypeTree.ofGraph namesakeGraph).sites = [("int", 0), ("int", 1)] ∧
      (collectTypes namesakeGraph).map site = [("int", 0), ("int", 1), ("str", 2)] ∧
      ¬ (TypeTree.ofGraph namesakeGraph).sites.Perm
        ((collectTypes namesakeGraph).map site) := by
  have shown : (TypeTree.ofGraph namesakeGraph).sites = [("int", 0), ("int", 1)] := by
    decide +kernel
  have collected : (collectTypes namesakeGraph).map site =
      [("int", 0), ("int", 1), ("str", 2)] := by decide +kernel
  refine ⟨by with_unfolding_all rfl, shown, collected, ?_⟩
  rw [shown, collected]
  intro same
  cases same.length_eq

end TypeTrace.View
