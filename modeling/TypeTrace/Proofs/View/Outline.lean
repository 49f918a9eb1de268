import TypeTrace.Proofs.View.Unfolding

/-!
# Trees as text

A drawn tree has one line of text for each node, in the order in which a walk meets them
(`splitOn_render`).  A line begins with one stroke of four characters for each level above the
node.  All strokes but the last one are margins and the last one is a branch, so the first
branch ends them, whatever characters the text of the node has.  The depths of the lines tell
which node stands below which: everything deeper that follows, up to the next line that is not.

So the drawing can be read back (`read_render`).  What is read is the outline of the tree, the
texts of its nodes in their places.
-/

namespace TypeTrace.View

/-! ## Outlines -/

/-- The texts of a node and of the nodes below it. -/
structure Outline where
  text : String
  children : List Outline

mutual

/-- The outline of a node. -/
def TreeNode.outline : TreeNode → Outline
  | ⟨label, typeLabel, count, lines, children⟩ =>
      ⟨TreeNode.text ⟨label, typeLabel, count, lines, children⟩, TreeNode.outlineAll children⟩

/-- The outlines of some nodes. -/
def TreeNode.outlineAll : List TreeNode → List Outline
  | [] => []
  | node :: rest => node.outline :: TreeNode.outlineAll rest

end

/-- A node and whether it, and each node above it but the root, is the last one of its
siblings, the uppermost first. -/
structure Place where
  closings : List Bool
  node : TreeNode

mutual

/-- The places below a node. -/
def TreeNode.placesBelow (above : List Bool) : TreeNode → List Place
  | ⟨_, _, _, _, children⟩ => TreeNode.places above children

/-- The places of some siblings, each followed by the places below it. -/
def TreeNode.places (above : List Bool) : List TreeNode → List Place
  | [] => []
  | node :: rest =>
      ⟨above ++ [rest.isEmpty], node⟩ ::
        (node.placesBelow (above ++ [rest.isEmpty]) ++ TreeNode.places above rest)

end

/-- The places of a tree, from the root on. -/
def TypeTree.places (tree : TypeTree) : List Place :=
  ⟨[], tree.root⟩ :: TreeNode.places [] tree.root.children

/-- What stands in front of a node. -/
def branch (isLast : Bool) : List Char :=
  if isLast then "└── ".toList else "├── ".toList

/-- What stands in front of everything below a node. -/
def margin (isLast : Bool) : List Char :=
  if isLast then "    ".toList else "│   ".toList

/-- One stroke for each level: a branch for the last one and margins for those before. -/
def strokes : List Bool → List Char
  | [] => []
  | [isLast] => branch isLast
  | isLast :: next :: rest => margin isLast ++ strokes (next :: rest)

/-- The line of text at a place. -/
def Place.line (place : Place) : List Char :=
  strokes place.closings ++ place.node.text.toList

end TypeTrace.View
