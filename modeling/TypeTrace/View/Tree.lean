import TypeTrace.Flow.Graph
import TypeTrace.Types.Descriptor

/-!
# Type trees

A dependency map is shown as a tree.  Children with one label form one node, and the
children of a label are shown where the label first occurs and nowhere else.  The tree
of a cyclic map is finite because of that.

`collectTypes` lists the entries of a map under the same rule, without forming groups.

Both go down the map at most one level for each of its keys: only keys have children,
and the labels that are being shown one inside the other are distinct.
-/

namespace TypeTrace.View

open TypeTrace.Flow

/-- Entries of one label, and what is shown below them. -/
structure TreeNode where
  label : String
  typeLabel : String
  count : Nat
  lines : List Int
  children : List TreeNode
  deriving Inhabited

/-- A tree with the number of entries right below the root and the number of distinct
labels in the whole map. -/
structure TypeTree where
  root : TreeNode
  directTypes : Nat
  totalTypes : Nat
  deriving Inhabited

/-- One more member for the group of a label. -/
def addToGroup (label : String) (id : Nat) :
    List (String × List Nat) → List (String × List Nat)
  | [] => [(label, [id])]
  | (first, members) :: rest =>
      if first = label then
        (first, members ++ [id]) :: rest
      else
        (first, members) :: addToGroup label id rest

/-- Entries by label, in order of first occurrence. -/
def groups (graph : DependencyGraph) (ids : List Nat) : List (String × List Nat) :=
  ids.foldl (fun groups id => addToGroup (graph.label id) id groups) []

/-- Nodes to show, and the labels whose children have been shown. -/
structure Expansion where
  nodes : List TreeNode
  shown : List String

/-- The text of a group. -/
def groupLabel (label : String) (count : Nat) : String :=
  if 1 < count then
    label ++ " (" ++ toString count ++ " occurrences)"
  else
    label

/-- What stands below a group: what stands below its first member, if that is a key. -/
def expandFirst (graph : DependencyGraph) (expand : Nat → List String → Expansion)
    (members : List Nat) (shown : List String) : Expansion :=
  match members with
  | [] => ⟨[], shown⟩
  | first :: _ => if graph.isKey first then expand first shown else ⟨[], shown⟩

/-- The nodes of some groups, one after the other. -/
def expandGroups (graph : DependencyGraph) (expand : Nat → List String → Expansion) :
    List (String × List Nat) → List String → Expansion
  | [], shown => ⟨[], shown⟩
  | (label, members) :: rest, shown =>
      let inner := expandFirst graph expand members shown
      let others := expandGroups graph expand rest inner.shown
      let lines := members.map fun id => (graph.entry id).line
      let node : TreeNode :=
        ⟨groupLabel label members.length, label, members.length, lines, inner.nodes⟩
      ⟨node :: others.nodes, others.shown⟩

/-- The nodes below an entry, at most `depth` levels of them. -/
def expand (graph : DependencyGraph) : (depth : Nat) → Nat → List String → Expansion
  | 0, _, shown => ⟨[], shown⟩
  | depth + 1, id, shown =>
      if graph.label id ∈ shown then
        ⟨[], shown⟩
      else
        expandGroups graph (expand graph depth) (groups graph (graph.children id))
          (graph.label id :: shown)

namespace TypeTree

/-- The tree of a dependency map. -/
def ofGraph (graph : DependencyGraph) : TypeTree :=
  let entry := graph.entry graph.root
  let below := expand graph (graph.edges.length + 1) graph.root []
  { root := ⟨entry.label, entry.label, 1, [entry.line], below.nodes⟩
    directTypes := (graph.children graph.root).length
    totalTypes := (Types.distinct (graph.values.map graph.label)).length }

/-- The tree in a few words. -/
def status (tree : TypeTree) : String :=
  if 0 < tree.directTypes then
    tree.root.typeLabel ++ ": " ++ toString tree.directTypes ++ " direct / " ++
      toString tree.totalTypes ++ " total types"
  else
    tree.root.typeLabel ++ ": No types found"

/-- What can be done with the tree. -/
def tooltip (tree : TypeTree) : String :=
  if 0 < tree.directTypes then
    "Click to view type hierarchy for " ++ tree.root.typeLabel
  else
    "No type hierarchy available"

end TypeTree

/-- The known lines of a node as people count. -/
def TreeNode.shownLines (node : TreeNode) : List String :=
  (node.lines.filter (0 ≤ ·)).map fun line => toString (Text.oneBased line)

/-- The line of text for a node. -/
def TreeNode.text (node : TreeNode) : String :=
  match node.shownLines with
  | [] => node.label
  | [line] => node.label ++ " [line " ++ line ++ "]"
  | lines => node.label ++ " [lines " ++ ", ".intercalate lines ++ "]"

mutual

/-- What is drawn for a node behind a branch, and below it with a margin. -/
def TreeNode.draw (margin branch indent : String) : TreeNode → String
  | ⟨label, typeLabel, count, lines, children⟩ =>
      "\n" ++ margin ++ branch ++
        TreeNode.text ⟨label, typeLabel, count, lines, children⟩ ++
        TreeNode.drawAll (margin ++ indent) children

/-- What is drawn for the nodes of one level. -/
def TreeNode.drawAll (margin : String) : List TreeNode → String
  | [] => ""
  | [last] => TreeNode.draw margin "└── " "    " last
  | node :: next :: rest =>
      TreeNode.draw margin "├── " "│   " node ++ TreeNode.drawAll margin (next :: rest)

end

/-- The tree as text, one line for each node. -/
def TypeTree.render (tree : TypeTree) : String :=
  tree.root.text ++ TreeNode.drawAll "" tree.root.children

/-- Entries that were collected, and the labels whose children were. -/
structure Collection where
  ids : List Nat
  shown : List String

/-- What is collected below the keys among some entries, one after the other. -/
def collectEach (graph : DependencyGraph) (collect : Nat → List String → Collection) :
    List Nat → List String → Collection
  | [], shown => ⟨[], shown⟩
  | id :: rest, shown =>
      let inner := if graph.isKey id then collect id shown else ⟨[], shown⟩
      let others := collectEach graph collect rest inner.shown
      ⟨inner.ids ++ others.ids, others.shown⟩

/-- The entries below an entry: its children and then what is below them. -/
def collect (graph : DependencyGraph) : (depth : Nat) → Nat → List String → Collection
  | 0, _, shown => ⟨[], shown⟩
  | depth + 1, id, shown =>
      if graph.label id ∈ shown then
        ⟨[], shown⟩
      else
        let children := graph.children id
        let below :=
          collectEach graph (collect graph depth) children (graph.label id :: shown)
        ⟨children ++ below.ids, below.shown⟩

/-- Every entry below the root of a map. -/
def collectTypes (graph : DependencyGraph) : List Entry :=
  (collect graph (graph.edges.length + 1) graph.root []).ids.map graph.entry

end TypeTrace.View
