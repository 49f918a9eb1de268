import Mathlib.Algebra.GroupWithZero.Nat
import TypeTrace.Proofs.View.Groups

/-!
# How a dependency map unfolds into a tree

A tree is unfolded from the root of a map downwards, and what is below a label is shown once.
The rules for that (`Unfolds`) need no bound on the depth: each entry that is gone on from
takes the label of a key away, so unfolding comes to an end on every map, with circles or
without (`expandGroups_unfolds`), and in one way only.

`TreeNode.origins` lists the nodes of a tree in pre-order, each with the entry that it was
made from.  Along this list a node is expanded if its entry is a key with a label that has
not been expanded before, and has nothing below it otherwise (`Traced`).
-/

namespace TypeTrace.View

open TypeTrace.Flow

variable {graph : DependencyGraph} {pending : List (String × List Nat)}
variable {shown later : List String} {expansion : Expansion} {id : Nat}

/-! ## Unfolding without a bound -/

/-- Whether a tree goes on from an entry, when the children of some labels are shown. -/
def Expandable (graph : DependencyGraph) (shown : List String) (id : Nat) : Prop :=
  graph.isKey id = true ∧ graph.label id ∉ shown

instance (graph : DependencyGraph) (shown : List String) (id : Nat) :
    Decidable (Expandable graph shown id) :=
  inferInstanceAs (Decidable (_ ∧ _))

/-- The node of a group, with what is below it. -/
def groupNode (graph : DependencyGraph) (group : String × List Nat)
    (children : List TreeNode) : TreeNode :=
  ⟨groupLabel group.1 group.2.length, group.1, group.2.length,
    group.2.map fun id => (graph.entry id).line, children⟩

/-- What groups unfold into, and the labels whose children are shown afterwards. -/
inductive Unfolds (graph : DependencyGraph) :
    List (String × List Nat) → List String → Expansion → Prop where
  | done {shown : List String} : Unfolds graph [] shown ⟨[], shown⟩
  | leaf {group : String × List Nat} {rest : List (String × List Nat)} {shown : List String}
      {others : Expansion}
      (closed : ∀ first, group.2.head? = some first → ¬ Expandable graph shown first)
      (after : Unfolds graph rest shown others) :
      Unfolds graph (group :: rest) shown ⟨groupNode graph group [] :: others.nodes, others.shown⟩
  | branch {group : String × List Nat} {rest : List (String × List Nat)} {shown : List String}
      {first : Nat} {inner others : Expansion} (isFirst : group.2.head? = some first)
      (expandable : Expandable graph shown first)
      (inside : Unfolds graph (groups graph (graph.children first))
        (graph.label first :: shown) inner)
      (after : Unfolds graph rest inner.shown others) :
      Unfolds graph (group :: rest) shown
        ⟨groupNode graph group inner.nodes :: others.nodes, others.shown⟩

theorem Unfolds.shown_subset (unfolds : Unfolds graph pending shown expansion) :
    shown ⊆ expansion.shown := by
  induction unfolds with
  | done => exact List.Subset.refl _
  | leaf _ _ ih => exact ih
  | branch _ _ _ _ insideIH afterIH =>
      intro label member
      exact afterIH (insideIH (List.mem_cons_of_mem _ member))

/-- Groups unfold in one way only. -/
theorem Unfolds.unique {other : Expansion} (unfolds : Unfolds graph pending shown expansion)
    (second : Unfolds graph pending shown other) : expansion = other := by
  induction unfolds generalizing other with
  | done =>
      cases second
      rfl
  | leaf closed _ ih =>
      cases second with
      | leaf _ after => rw [ih after]
      | branch isFirst expandable => exact absurd expandable (closed _ isFirst)
  | branch isFirst expandable _ _ insideIH afterIH =>
      cases second with
      | leaf closed => exact absurd expandable (closed _ isFirst)
      | branch isFirstOther _ inside after =>
          cases isFirst.symm.trans isFirstOther
          cases insideIH inside
          rw [afterIH after]

/-! ## The bound does not matter -/

/-- The keys whose children have not been shown. -/
def unshown (graph : DependencyGraph) (shown : List String) : List Nat :=
  graph.keys.filter (graph.label · ∉ shown)

theorem length_unshown_le (graph : DependencyGraph) (shown : List String) :
    (unshown graph shown).length ≤ graph.edges.length := by
  have keys : graph.keys.length = graph.edges.length := List.length_map _
  rw [← keys]
  exact List.length_filter_le _ _

theorem length_unshown_mono (subset : shown ⊆ later) :
    (unshown graph later).length ≤ (unshown graph shown).length := by
  apply List.Sublist.length_le
  apply List.monotone_filter_right
  intro key isUnshown
  simp only [decide_eq_true_eq] at isUnshown ⊢
  exact fun member => isUnshown (subset member)

/-- Going on from an entry leaves fewer keys. -/
theorem length_unshown_lt (expandable : Expandable graph shown id) :
    (unshown graph (graph.label id :: shown)).length < (unshown graph shown).length := by
  have isKey : id ∈ graph.keys := Edges.isKey_iff.mp expandable.1
  have narrower : unshown graph (graph.label id :: shown) =
      (unshown graph shown).filter (graph.label · ≠ graph.label id) := by
    simp only [unshown, List.filter_filter, List.mem_cons, not_or, Bool.decide_and]
  rw [narrower]
  apply List.length_filter_lt_length_iff_exists.mpr
  refine ⟨id, List.mem_filter.mpr ⟨isKey, ?_⟩, ?_⟩
  · exact decide_eq_true expandable.2
  · simp

theorem expandFirst_of_closed {members : List Nat} (depth : Nat)
    (closed : ∀ first, members.head? = some first → ¬ Expandable graph shown first) :
    expandFirst graph (expand graph depth) members shown = ⟨[], shown⟩ := by
  cases members with
  | nil => rfl
  | cons first others =>
      rw [expandFirst]
      split
      next isKey =>
        have known : graph.label first ∈ shown := by
          by_contra isNew
          exact closed first rfl ⟨isKey, isNew⟩
        cases depth with
        | zero => rfl
        | succ depth => simp [expand, known]
      next => rfl

theorem expandFirst_of_expandable {members : List Nat} {first : Nat} (depth : Nat)
    (isFirst : members.head? = some first) (expandable : Expandable graph shown first) :
    expandFirst graph (expand graph (depth + 1)) members shown =
      expandGroups graph (expand graph depth) (groups graph (graph.children first))
        (graph.label first :: shown) := by
  cases members with
  | nil => cases isFirst
  | cons other others =>
      cases isFirst
      simp [expandFirst, expand, expandable.1, expandable.2]

/-- As many levels as there are keys left are enough for all groups. -/
theorem expandGroups_unfolds {depth : Nat} (pending : List (String × List Nat))
    (enough : (unshown graph shown).length ≤ depth) :
    Unfolds graph pending shown (expandGroups graph (expand graph depth) pending shown) := by
  induction depth generalizing pending shown with
  | zero =>
      have closed (first : Nat) : ¬ Expandable graph shown first := by
        intro expandable
        have fewer := length_unshown_lt expandable
        omega
      induction pending with
      | nil => exact .done
      | cons group rest ih =>
          have inner := @expandFirst_of_closed graph shown group.2 0 fun first _ => closed first
          rw [expandGroups, inner]
          exact .leaf (fun first _ => closed first) ih
  | succ depth deeper =>
      induction pending generalizing shown with
      | nil => exact .done
      | cons group rest ih =>
          by_cases goesOn : ∃ first, group.2.head? = some first ∧ Expandable graph shown first
          · obtain ⟨first, isFirst, expandable⟩ := goesOn
            have fewer := length_unshown_lt expandable
            have inside := @deeper (graph.label first :: shown)
              (groups graph (graph.children first)) (by omega)
            have subset := List.Subset.trans (List.subset_cons_self _ _) inside.shown_subset
            rw [expandGroups, expandFirst_of_expandable depth isFirst expandable]
            exact .branch isFirst expandable inside
              (ih ((length_unshown_mono subset).trans enough))
          · have closed : ∀ first, group.2.head? = some first → ¬ Expandable graph shown first :=
              fun first isFirst expandable => goesOn ⟨first, isFirst, expandable⟩
            rw [expandGroups, expandFirst_of_closed (depth + 1) closed]
            exact .leaf closed (ih enough)

/-- A tree shows what the children of the root unfold into. -/
theorem ofGraph_unfolds (graph : DependencyGraph) :
    ∃ later, Unfolds graph (groups graph (graph.children graph.root))
      [graph.label graph.root] ⟨(TypeTree.ofGraph graph).root.children, later⟩ :=
  ⟨_, expandGroups_unfolds _ (length_unshown_le graph _)⟩

/-! ## Nodes and the entries they were made from -/

mutual

/-- A node and all nodes below it. -/
def TreeNode.preorder : TreeNode → List TreeNode
  | ⟨label, typeLabel, count, lines, children⟩ =>
      ⟨label, typeLabel, count, lines, children⟩ :: TreeNode.preorderAll children

/-- Some nodes, each followed by all nodes below it. -/
def TreeNode.preorderAll : List TreeNode → List TreeNode
  | [] => []
  | node :: rest => node.preorder ++ TreeNode.preorderAll rest

end

mutual

/-- A node and all nodes below it, each with the entry it was made from: the nodes right
below a node were made from the first entries of each label among the children. -/
def TreeNode.origins (graph : DependencyGraph) (id : Nat) : TreeNode → List (Nat × TreeNode)
  | ⟨label, typeLabel, count, lines, children⟩ =>
      (id, ⟨label, typeLabel, count, lines, children⟩) ::
        TreeNode.originsAll graph (leaders graph (graph.children id)) children

/-- Nodes with the entries they were made from, each followed by all nodes below it. -/
def TreeNode.originsAll (graph : DependencyGraph) (ids : List Nat) :
    List TreeNode → List (Nat × TreeNode)
  | [] => []
  | node :: rest =>
      match ids with
      | [] => []
      | id :: others => node.origins graph id ++ TreeNode.originsAll graph others rest

end

theorem TreeNode.preorder_eq (node : TreeNode) :
    node.preorder = node :: TreeNode.preorderAll node.children := by
  cases node
  rfl

theorem TreeNode.preorderAll_cons (node : TreeNode) (rest : List TreeNode) :
    TreeNode.preorderAll (node :: rest) =
      node :: (TreeNode.preorderAll node.children ++ TreeNode.preorderAll rest) := by
  rw [TreeNode.preorderAll, TreeNode.preorder_eq, List.cons_append]

theorem TreeNode.origins_eq (graph : DependencyGraph) (id : Nat) (node : TreeNode) :
    node.origins graph id =
      (id, node) ::
        TreeNode.originsAll graph (leaders graph (graph.children id)) node.children := by
  cases node
  rfl

theorem TreeNode.originsAll_cons (graph : DependencyGraph) (id : Nat) (ids : List Nat)
    (node : TreeNode) (rest : List TreeNode) :
    TreeNode.originsAll graph (id :: ids) (node :: rest) =
      (id, node) ::
        (TreeNode.originsAll graph (leaders graph (graph.children id)) node.children ++
          TreeNode.originsAll graph ids rest) := by
  rw [TreeNode.originsAll, TreeNode.origins_eq, List.cons_append]

/-- Nodes that show the children of an entry, one node for each label. -/
structure Shows (graph : DependencyGraph) (id : Nat) (nodes : List TreeNode) : Prop where
  /-- Labels stand in the order in which they first occur. -/
  labels : nodes.map (·.typeLabel) = ((graph.children id).map graph.label).eraseDups
  distinct : (nodes.map (·.typeLabel)).Nodup
  /-- A node counts the children of its label and has their lines. -/
  members : ∀ node ∈ nodes,
    node.count = ((graph.children id).filter (graph.label · = node.typeLabel)).length ∧
    node.lines = ((graph.children id).filter (graph.label · = node.typeLabel)).map
      (fun child => (graph.entry child).line) ∧
    node.label = groupLabel node.typeLabel node.count
  total : (nodes.map (·.count)).sum = (graph.children id).length

/-- A group that holds something, under the label of its first member. -/
def Labelled (graph : DependencyGraph) (group : String × List Nat) : Prop :=
  ∃ first, group.2.head? = some first ∧ group.1 = graph.label first

theorem labelled_of_mem_groups {ids : List Nat} {group : String × List Nat}
    (isGroup : group ∈ groups graph ids) : Labelled graph group := by
  obtain ⟨label, members⟩ := group
  cases members with
  | cons first others =>
      exact ⟨first, rfl, (label_of_mem_groups isGroup List.mem_cons_self).symm⟩
  | nil =>
      rw [groups_eq] at isGroup
      obtain ⟨other, occurs, isPair⟩ := List.mem_map.mp isGroup
      obtain ⟨id, member, isLabel⟩ := List.mem_map.mp (List.mem_eraseDups.mp occurs)
      have noMember := List.filter_eq_nil_iff.mp (congrArg Prod.snd isPair) id member
      simp [isLabel] at noMember

theorem heads_cons {group : String × List Nat} {first : Nat}
    (isFirst : group.2.head? = some first) (rest : List (String × List Nat)) :
    heads (group :: rest) = first :: heads rest := by
  simp [heads, isFirst]

/-- Groups unfold into one node each, whatever is below it. -/
theorem Unfolds.nodes_eq (unfolds : Unfolds graph pending shown expansion) :
    expansion.nodes.map (fun node => { node with children := [] }) =
      pending.map (groupNode graph · []) := by
  induction unfolds with
  | done => rfl
  | leaf _ _ ih =>
      rw [List.map_cons, List.map_cons, ih]
      rfl
  | branch _ _ _ _ _ ih =>
      rw [List.map_cons, List.map_cons, ih]
      rfl

/-- What does not tell children apart can be read off the groups. -/
theorem Unfolds.map_nodes {α : Type} (unfolds : Unfolds graph pending shown expansion)
    (view : TreeNode → α)
    (blind : ∀ node, view { node with children := [] } = view node) :
    expansion.nodes.map view = pending.map fun group => view (groupNode graph group []) := by
  have same := congrArg (List.map view) unfolds.nodes_eq
  rw [List.map_map, List.map_map] at same
  rw [← List.map_congr_left fun node _ => blind node]
  exact same

theorem Unfolds.shows (unfolds : Unfolds graph (groups graph (graph.children id)) shown expansion) :
    Shows graph id expansion.nodes := by
  have labels : expansion.nodes.map (·.typeLabel) =
      ((graph.children id).map graph.label).eraseDups := by
    rw [unfolds.map_nodes (·.typeLabel) fun _ => rfl, groups_eq, List.map_map]
    exact List.map_id _
  constructor
  · exact labels
  · rw [labels]
    exact eraseDups_nodup _
  · intro node member
    have isGroup : { node with children := [] } ∈
        (groups graph (graph.children id)).map (groupNode graph · []) := by
      rw [← unfolds.nodes_eq]
      exact List.mem_map.mpr ⟨node, member, rfl⟩
    rw [groups_eq, List.map_map] at isGroup
    obtain ⟨label, _, isNode⟩ := List.mem_map.mp isGroup
    obtain ⟨text, typeLabel, count, lines, children⟩ := node
    cases isNode
    exact ⟨rfl, rfl, rfl⟩
  · have counted := (groups_perm graph (graph.children id)).length_eq
    rw [unfolds.map_nodes (·.count) fun _ => rfl, ← counted, List.length_flatMap]
    rfl

/-- Nodes with their entries, in pre-order, when the children of some labels are shown, and
the labels whose children are shown afterwards. -/
inductive Traced (graph : DependencyGraph) :
    List String → List (Nat × TreeNode) → List String → Prop where
  | done {shown : List String} : Traced graph shown [] shown
  | leaf {shown later : List String} {id : Nat} {node : TreeNode}
      {rest : List (Nat × TreeNode)} (closed : ¬ Expandable graph shown id)
      (labelled : node.typeLabel = graph.label id) (bare : node.children = [])
      (after : Traced graph shown rest later) : Traced graph shown ((id, node) :: rest) later
  | branch {shown later : List String} {id : Nat} {node : TreeNode}
      {rest : List (Nat × TreeNode)} (expandable : Expandable graph shown id)
      (labelled : node.typeLabel = graph.label id) (shows : Shows graph id node.children)
      (after : Traced graph (graph.label id :: shown) rest later) :
      Traced graph shown ((id, node) :: rest) later

theorem Traced.append {between : List String} {first second : List (Nat × TreeNode)}
    (traced : Traced graph shown first between) (further : Traced graph between second later) :
    Traced graph shown (first ++ second) later := by
  induction traced with
  | done => exact further
  | leaf closed labelled bare _ ih => exact .leaf closed labelled bare (ih further)
  | branch expandable labelled shows _ ih =>
      exact .branch expandable labelled shows (ih further)

/-- The run lemma: what groups unfold into is traced node by node. -/
theorem Unfolds.traced (unfolds : Unfolds graph pending shown expansion)
    (labelled : ∀ group ∈ pending, Labelled graph group) :
    Traced graph shown (TreeNode.originsAll graph (heads pending) expansion.nodes)
      expansion.shown := by
  induction unfolds with
  | done => exact .done
  | leaf closed _ ih =>
      obtain ⟨first, isFirst, isLabel⟩ := labelled _ List.mem_cons_self
      have after := ih fun group member => labelled group (List.mem_cons_of_mem _ member)
      rw [heads_cons isFirst, TreeNode.originsAll_cons]
      exact .leaf (closed first isFirst) isLabel rfl after
  | branch isFirst expandable inside _ insideIH afterIH =>
      obtain ⟨other, isOther, isLabel⟩ := labelled _ List.mem_cons_self
      cases isFirst.symm.trans isOther
      have below := insideIH fun group member => labelled_of_mem_groups member
      have after := afterIH fun group member => labelled group (List.mem_cons_of_mem _ member)
      rw [heads_cons isFirst, TreeNode.originsAll_cons]
      exact .branch expandable isLabel inside.shows (below.append after)

/-- Every node was made from an entry. -/
theorem Unfolds.nodes_originsAll (unfolds : Unfolds graph pending shown expansion)
    (labelled : ∀ group ∈ pending, Labelled graph group) :
    (TreeNode.originsAll graph (heads pending) expansion.nodes).map (·.2) =
      TreeNode.preorderAll expansion.nodes := by
  induction unfolds with
  | done => rfl
  | leaf _ _ ih =>
      obtain ⟨first, isFirst, _⟩ := labelled _ List.mem_cons_self
      have after := ih fun group member => labelled group (List.mem_cons_of_mem _ member)
      rw [heads_cons isFirst, TreeNode.originsAll_cons, TreeNode.preorderAll_cons, ← after]
      rfl
  | branch isFirst _ _ _ insideIH afterIH =>
      have below := insideIH fun group member => labelled_of_mem_groups member
      have after := afterIH fun group member => labelled group (List.mem_cons_of_mem _ member)
      rw [heads_cons isFirst, TreeNode.originsAll_cons, TreeNode.preorderAll_cons, ← after,
        List.map_cons, List.map_append]
      exact congrArg (fun listed => _ :: (listed ++ _)) below

/-! ## Along the nodes of a tree -/

/-- The labels whose children are shown after some entries, when those of some labels are
shown before: each key adds its label, unless it is there. -/
def expandedLabels (graph : DependencyGraph) (shown : List String) : List Nat → List String
  | [] => shown
  | id :: rest =>
      if Expandable graph shown id then
        expandedLabels graph (graph.label id :: shown) rest
      else
        expandedLabels graph shown rest

/-- What holds at one place of the list holds by the labels expanded before it. -/
theorem Traced.node_at {before after : List (Nat × TreeNode)} {node : TreeNode}
    (traced : Traced graph shown (before ++ (id, node) :: after) later) :
    node.typeLabel = graph.label id ∧
      (Expandable graph (expandedLabels graph shown (before.map (·.1))) id →
        Shows graph id node.children) ∧
      (¬ Expandable graph (expandedLabels graph shown (before.map (·.1))) id →
        node.children = []) := by
  induction before generalizing shown with
  | nil =>
      cases traced with
      | leaf closed labelled bare _ =>
          exact ⟨labelled, fun expandable => absurd expandable closed, fun _ => bare⟩
      | branch expandable labelled shows _ =>
          exact ⟨labelled, fun _ => shows, fun closed => absurd expandable closed⟩
  | cons first rest ih =>
      cases traced with
      | leaf closed _ _ after =>
          simp only [List.map_cons, expandedLabels, if_neg closed]
          exact ih after
      | branch expandable _ _ after =>
          simp only [List.map_cons, expandedLabels, if_pos expandable]
          exact ih after

/-- The types of the nodes that have something below them. -/
def branchLabels (nodes : List TreeNode) : List String :=
  (nodes.filter (! ·.children.isEmpty)).map (·.typeLabel)

theorem branchLabels_cons (node : TreeNode) (rest : List TreeNode) :
    branchLabels (node :: rest) =
      if node.children = [] then branchLabels rest
      else node.typeLabel :: branchLabels rest := by
  cases isChildren : node.children with
  | nil => simp [branchLabels, isChildren]
  | cons child others => simp [branchLabels, isChildren]

theorem Traced.fresh {listed : List (Nat × TreeNode)}
    (traced : Traced graph shown listed later) :
    ∀ label ∈ branchLabels (listed.map (·.2)), label ∉ shown := by
  induction traced with
  | done => simp [branchLabels]
  | leaf _ _ bare _ ih =>
      rw [List.map_cons, branchLabels_cons, if_pos bare]
      exact ih
  | branch expandable labelled _ _ ih =>
      intro label member known
      rw [List.map_cons, branchLabels_cons] at member
      split at member
      next => exact ih label member (List.mem_cons_of_mem _ known)
      next =>
        rcases List.mem_cons.mp member with rfl | member
        · exact expandable.2 (labelled ▸ known)
        · exact ih label member (List.mem_cons_of_mem _ known)

theorem Traced.once {listed : List (Nat × TreeNode)}
    (traced : Traced graph shown listed later) :
    (branchLabels (listed.map (·.2))).Nodup := by
  induction traced with
  | done => exact List.nodup_nil
  | leaf _ _ bare _ ih =>
      rw [List.map_cons, branchLabels_cons, if_pos bare]
      exact ih
  | branch _ labelled _ after ih =>
      rw [List.map_cons, branchLabels_cons]
      split
      next => exact ih
      next =>
        refine List.nodup_cons.mpr ⟨?_, ih⟩
        intro member
        exact after.fresh _ member (List.mem_cons.mpr (.inl labelled))

/-! ## Trees of maps -/

/-- A tree that a dependency map unfolds into. -/
structure Unfolded (graph : DependencyGraph) (tree : TypeTree) : Prop where
  /-- Unfolding comes to an end, and what is below the root is all that it can give. -/
  ends : ∃ later, ∀ expansion,
    Unfolds graph (groups graph (graph.children graph.root)) [graph.label graph.root] expansion ↔
      expansion = ⟨tree.root.children, later⟩
  /-- Every node was made from an entry. -/
  made : (tree.root.origins graph graph.root).map (·.2) = tree.root.preorder
  /-- A node shows the children of its entry if that is a key with a label that has not been
  expanded before in pre-order, and nothing otherwise. -/
  expanded : ∀ before id node after,
    tree.root.origins graph graph.root = before ++ (id, node) :: after →
      node.typeLabel = graph.label id ∧
      (Expandable graph (expandedLabels graph [] (before.map (·.1))) id →
        Shows graph id node.children) ∧
      (¬ Expandable graph (expandedLabels graph [] (before.map (·.1))) id →
        node.children = [])
  /-- No two nodes with something below them have the same type. -/
  once : (branchLabels tree.root.preorder).Nodup
  root : Shows graph graph.root tree.root.children
  direct : (tree.root.children.map (·.count)).sum = tree.directTypes

/-- The root is a node like the others: if its entry is no key, the tree ends there. -/
theorem Unfolds.traced_root {node : TreeNode}
    (unfolds : Unfolds graph (groups graph (graph.children id)) [graph.label id]
      ⟨node.children, later⟩) (labelled : node.typeLabel = graph.label id) :
    ∃ final, Traced graph [] (node.origins graph id) final := by
  rw [TreeNode.origins_eq]
  by_cases isKey : graph.isKey id = true
  · have below := unfolds.traced fun group member => labelled_of_mem_groups member
    exact ⟨later, .branch ⟨isKey, List.not_mem_nil⟩ labelled unfolds.shows below⟩
  · have bare : node.children = [] := by
      have labels := unfolds.shows.labels
      rw [DependencyGraph.children_of_not_isKey isKey] at labels
      exact List.map_eq_nil_iff.mp labels
    rw [bare]
    exact ⟨[], .leaf (fun expandable => isKey expandable.1) labelled bare .done⟩

/-- Every dependency map, whatever its circles, unfolds into its tree. -/
theorem ofGraph_unfolded (graph : DependencyGraph) :
    Unfolded graph (TypeTree.ofGraph graph) := by
  obtain ⟨later, unfolds⟩ := ofGraph_unfolds graph
  obtain ⟨final, traced⟩ := unfolds.traced_root rfl
  have made : ((TypeTree.ofGraph graph).root.origins graph graph.root).map (·.2) =
      (TypeTree.ofGraph graph).root.preorder := by
    have below := unfolds.nodes_originsAll fun group member => labelled_of_mem_groups member
    rw [TreeNode.origins_eq, TreeNode.preorder_eq, List.map_cons]
    exact congrArg (_ :: ·) below
  constructor
  · refine ⟨later, fun expansion => ⟨fun other => other.unique unfolds, ?_⟩⟩
    rintro rfl
    exact unfolds
  · exact made
  · intro before id node after isList
    rw [isList] at traced
    exact traced.node_at
  · rw [← made]
    exact traced.once
  · exact unfolds.shows
  · exact unfolds.shows.total

end TypeTrace.View
