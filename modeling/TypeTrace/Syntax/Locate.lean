import TypeTrace.Syntax.Node

/-!
# The nodes around an offset

`locate` goes down from the statements of a module, each time into the first part that
covers the offset, and never comes back.  The path it leaves runs from the outermost
node to the innermost one.
-/

namespace TypeTrace.Syntax

/-- The path from the first candidate that covers an offset. -/
def descend (offset : Nat) (candidates : List Node) : List Node :=
  match _found : candidates.find? (·.covers offset) with
  | none => []
  | some node => node :: descend offset node.children
termination_by Node.sizes candidates
decreasing_by
  exact Nat.lt_of_lt_of_le (Node.sizes_children_lt node)
    (Node.size_le_sizes (List.mem_of_find?_eq_some _found))

/-- The largest offset a tree can refer to. -/
def maxOffset : Nat := 0xFFFFFFFF

/-- The path of nodes around an offset, outermost first. -/
def locate (suite : Suite) (offset : Nat) : List Node :=
  if offset ≤ maxOffset then descend offset (Node.ofSuite suite) else []

end TypeTrace.Syntax
