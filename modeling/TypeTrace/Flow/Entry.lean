import TypeTrace.Source.Unit

/-!
# Entries

An entry is one discovery: a label, the node it was found at, and that node's line.
-/

namespace TypeTrace.Flow

open Syntax

/-- A label found at a node. -/
structure Entry where
  line : Int
  label : String
  node : Node
  deriving Inhabited

namespace Entry

/-- The entry of a label at a node of a unit. -/
def ofNode (unit : SourceUnit) (node : Node) (label : String) : Entry :=
  ⟨unit.lineOf node.start, label, node⟩

/-- Whether two entries cannot be told apart by line and label. -/
def sameSite (left right : Entry) : Bool :=
  left.line == right.line && left.label == right.label

/-- The line as people count, if it is known. -/
def oneBasedLine? (entry : Entry) : Option Int :=
  if entry.line = Text.unknownLine then none else some (Text.oneBased entry.line)

/-- The entry as text. -/
def text (entry : Entry) : String :=
  match entry.oneBasedLine? with
  | none => entry.label
  | some line => entry.label ++ " (line " ++ toString line ++ ")"

end Entry

end TypeTrace.Flow
