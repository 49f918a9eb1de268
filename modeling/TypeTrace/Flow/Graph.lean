import TypeTrace.Config
import TypeTrace.Flow.Event

/-!
# The dependency map

Every entry that is entered or reported gets the next number.  What is found while a
subject is open becomes a child of the entry it was opened with: the map goes from the
entry on top of the stack to the entries found under it.

Children of one key differ in line or label.  A key is looked up by its label, and a
new key may keep only the first entry of the batch it is made for.
-/

namespace TypeTrace.Flow

/-- Children by key, in the order in which the keys were made. -/
abbrev Edges := List (Nat × List Nat)

namespace Edges

/-- The children of a key. -/
def children (edges : Edges) (key : Nat) : List Nat :=
  (List.lookup key edges).getD []

/-- Whether a number is a key. -/
def isKey (edges : Edges) (key : Nat) : Bool :=
  (List.lookup key edges).isSome

/-- One more child for a key. -/
def addChild (edges : Edges) (key child : Nat) : Edges :=
  edges.map fun (other, children) =>
    if other = key then (other, children ++ [child]) else (other, children)

end Edges

/-- The entries of a resolution and which of them led to which. -/
structure DependencyGraph where
  entries : Array Entry
  edges : Edges
  root : Nat

namespace DependencyGraph

/-- The entry of a number. -/
def entry (graph : DependencyGraph) (id : Nat) : Entry :=
  graph.entries[id]?.getD default

/-- The label of a number's entry. -/
def label (graph : DependencyGraph) (id : Nat) : String := (graph.entry id).label

/-- The children of an entry, none if it is no key. -/
def children (graph : DependencyGraph) (id : Nat) : List Nat := graph.edges.children id

/-- Whether an entry is a key of the map. -/
def isKey (graph : DependencyGraph) (id : Nat) : Bool := graph.edges.isKey id

/-- The keys in the order in which they were made. -/
def keys (graph : DependencyGraph) : List Nat := graph.edges.map (·.1)

/-- Every child of every key. -/
def values (graph : DependencyGraph) : List Nat := graph.edges.flatMap (·.2)

/-- Whether the map has no key. -/
def isEmpty (graph : DependencyGraph) : Bool := graph.edges.isEmpty

end DependencyGraph

/-- A dependency map that is being built. -/
structure GraphBuilder where
  entries : Array Entry := #[]
  edges : Edges := []
  /-- Numbers of the open entries, the last one opened first. -/
  stack : List Nat := []
  root : Option Nat := none

namespace GraphBuilder

/-- The entry of a number. -/
def entry (builder : GraphBuilder) (id : Nat) : Entry :=
  builder.entries[id]?.getD default

/-- The label of a number's entry. -/
def label (builder : GraphBuilder) (id : Nat) : String := (builder.entry id).label

/-- The numbers that the next entries get. -/
def freshIds (builder : GraphBuilder) (count : Nat) : List Nat :=
  List.range' builder.entries.size count

/-- Number some entries. -/
def allocate (builder : GraphBuilder) (batch : List Entry) : GraphBuilder :=
  { builder with entries := builder.entries ++ batch }

/-- The key that has the label of an entry. -/
def keyLike? (builder : GraphBuilder) (id : Nat) : Option Nat :=
  (builder.edges.map (·.1)).find? fun key => builder.label key == builder.label id

/-- Whether a key has a child that is the given one or has its line and label. -/
def hasChildLike (builder : GraphBuilder) (key id : Nat) : Bool :=
  (builder.edges.children key).any fun child =>
    child == id || (builder.entry child).sameSite (builder.entry id)

/-- Give a key a child, unless it has one like it. -/
def addChild (builder : GraphBuilder) (key id : Nat) : GraphBuilder :=
  if builder.hasChildLike key id then
    builder
  else
    { builder with edges := builder.edges.addChild key id }

/-- Give a key children one after the other. -/
def addChildren (builder : GraphBuilder) (key : Nat) (batch : List Nat) : GraphBuilder :=
  batch.foldl (addChild · key ·) builder

/-- What is kept of the batch that a new key is made for. -/
def kept (commit : SiblingCommit) (batch : List Nat) : List Nat :=
  match commit with
  | .firstOnly => batch.take 1
  | .all => batch

/-- Record a batch under the entry on top of the stack. -/
def commit (mode : SiblingCommit) (builder : GraphBuilder) (batch : List Nat) :
    GraphBuilder :=
  match builder.stack with
  | [] => builder
  | top :: _ =>
      match builder.keyLike? top with
      | some key => builder.addChildren key batch
      | none =>
          { builder with edges := builder.edges ++ [(top, [])] }.addChildren top
            (kept mode batch)

/-- Open an entry under the one on top of the stack. -/
def enter (mode : SiblingCommit) (builder : GraphBuilder) (entry : Entry) : GraphBuilder :=
  let id := builder.entries.size
  let recorded :=
    { builder.allocate [entry] with root := builder.root.or (some id) }.commit mode [id]
  { recorded with stack := id :: recorded.stack }

/-- Close the entry on top of the stack.  The first one opened stays. -/
def exit (builder : GraphBuilder) : GraphBuilder :=
  match builder.stack with
  | _ :: next :: rest => { builder with stack := next :: rest }
  | _ => builder

/-- Record a batch of entries under the one on top of the stack. -/
def emit (mode : SiblingCommit) (builder : GraphBuilder) (batch : List Entry) :
    GraphBuilder :=
  (builder.allocate batch).commit mode (builder.freshIds batch.length)

/-- Take an event into account. -/
def step (mode : SiblingCommit) (builder : GraphBuilder) : Event → GraphBuilder
  | .enter entry => builder.enter mode entry
  | .emit batch => builder.emit mode batch
  | .exit => builder.exit

/-- The builder after some events. -/
def run (mode : SiblingCommit) (events : List Event) : GraphBuilder :=
  events.foldl (step mode) ⟨#[], [], [], none⟩

/-- The map that was built, if anything was opened. -/
def graph? (builder : GraphBuilder) : Option DependencyGraph :=
  builder.root.map fun root => ⟨builder.entries, builder.edges, root⟩

end GraphBuilder

/-- The dependency map of some events. -/
def DependencyGraph.ofEvents? (mode : SiblingCommit) (events : List Event) :
    Option DependencyGraph :=
  (GraphBuilder.run mode events).graph?

end TypeTrace.Flow
