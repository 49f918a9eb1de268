import TypeTrace.Syntax.Node

/-!
# Visits in source order

A walk visits a node and then its parts, from a list of nodes that are still to be
visited.  Every visit says whether the node stands inside a statement that may skip
it.  A walk over a module goes everywhere; a walk over a function body stays out of
the functions defined in it.
-/

namespace TypeTrace.Syntax

namespace Node

/-- Statements whose parts need not run whenever the statement does. -/
def isBranching : Node → Bool
  | .stmt (.forLoop ..) => true
  | .stmt (.branch ..) => true
  | .stmt (.matchBlock ..) => true
  | .stmt (.tryBlock ..) => true
  | _ => false

/-- Statements that define a function. -/
def isFunction : Node → Bool
  | .stmt (.functionDef ..) => true
  | _ => false

end Node

/-- A node that a walk comes by. -/
structure Visit where
  node : Node
  /-- Whether a branching statement of the walk encloses the node. -/
  conditional : Bool
  deriving Inhabited

/-- How far a walk goes. -/
inductive Reach where
  | everywhere
  | outsideFunctions
  deriving Repr, DecidableEq, Inhabited

/-- Whether a walk goes on to the parts of a node. -/
def Reach.opens : Reach → Node → Bool
  | .everywhere, _ => true
  | .outsideFunctions, node => ! node.isFunction

namespace Visit

/-- The visits that a visit leads to directly. -/
def parts (reach : Reach) (visit : Visit) : List Visit :=
  if reach.opens visit.node then
    visit.node.children.map (⟨·, visit.conditional || visit.node.isBranching⟩)
  else
    []

theorem sizes_parts_lt (reach : Reach) (visit : Visit) :
    Node.sizes ((visit.parts reach).map (·.node)) < visit.node.size := by
  have smaller := Node.sizes_children_lt visit.node
  by_cases opened : reach.opens visit.node
  · simpa [parts, opened, Function.comp_def] using smaller
  · simp only [parts, opened, Bool.false_eq_true, ↓reduceIte, List.map_nil, Node.sizes_nil]
    omega

end Visit

/-- All visits from the nodes that are pending: the first one, then its parts, then
the others. -/
def walk (reach : Reach) : List Visit → List Visit
  | [] => []
  | visit :: pending => visit :: walk reach (visit.parts reach ++ pending)
termination_by pending => Node.sizes (pending.map (·.node))
decreasing_by
  have smaller := Visit.sizes_parts_lt reach visit
  simp only [List.map_append, Node.sizes_append, List.map_cons, Node.sizes_cons]
  omega

/-- The statements of a suite as the visits a walk starts from. -/
def roots (suite : Suite) : List Visit :=
  (Node.ofSuite suite).map (⟨·, false⟩)

/-- Visits of a module, nested scopes included. -/
def moduleVisits (suite : Suite) : List Visit :=
  walk .everywhere (roots suite)

/-- Visits of a function body, without the insides of nested functions. -/
def bodyVisits (body : Suite) : List Visit :=
  walk .outsideFunctions (roots body)

end TypeTrace.Syntax
