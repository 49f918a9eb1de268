import TypeTrace.Flow.Graph
import TypeTrace.Source.Project

/-!
# Resolution

The types at a place of a project, as the list of entries in the order they are found,
or as the dependency map that tells where each of them comes from.
-/

namespace TypeTrace.Flow

/-- A place in a project. -/
structure Anchor where
  path : String
  offset : Nat
  deriving Repr, DecidableEq, Inhabited

/-- The unit of an anchor. -/
def unitAt (project : Project) (path : String) : Except ResolutionError SourceUnit :=
  match project.unit? path with
  | some unit => .ok unit
  | none => .error (.noContainingFile path)

/-- The unit of an anchor and the element there. -/
def locateAnchor (project : Project) (anchor : Anchor) :
    Except ResolutionError (SourceUnit × Element) := do
  let unit ← unitAt project anchor.path
  let element ← classify unit anchor.offset
  return (unit, element)

/-- What a resolution at an anchor reports. -/
def eventsAt (project : Project) (oracle : Oracle) (config : ResolverConfig)
    (anchor : Anchor) : Except ResolutionError (List Event) := do
  let (unit, element) ← locateAnchor project anchor
  return events oracle config.unionLimit unit element

/-- Every type at an anchor, in the order they are found. -/
def resolveFlat (project : Project) (oracle : Oracle) (config : ResolverConfig)
    (anchor : Anchor) : Except ResolutionError (List Entry) :=
  (eventsAt project oracle config anchor).map flatEntries

/-- The dependency map at an anchor. -/
def resolveGraph (project : Project) (oracle : Oracle) (config : ResolverConfig)
    (anchor : Anchor) : Except ResolutionError DependencyGraph := do
  let reported ← eventsAt project oracle config anchor
  match DependencyGraph.ofEvents? config.siblingCommit reported with
  | some graph => .ok graph
  | none => .error (.noElementAtOffset anchor.offset)

/-- Every type at an anchor, none if it cannot be resolved. -/
def possibleTypes (project : Project) (oracle : Oracle) (config : ResolverConfig)
    (anchor : Anchor) : List Entry :=
  match resolveFlat project oracle config anchor with
  | .ok entries => entries
  | .error _ => []

/-- The dependency map at an anchor, if it can be resolved. -/
def possibleGraph? (project : Project) (oracle : Oracle) (config : ResolverConfig)
    (anchor : Anchor) : Option DependencyGraph :=
  (resolveGraph project oracle config anchor).toOption

end TypeTrace.Flow
