import TypeTrace.Source.Unit
import TypeTrace.Syntax.Function

/-!
# Nodes that a walk comes by

A family of nodes is hereditary when it holds the parts of every node it holds.  A walk
never leaves such a family, and neither do the functions that a statement defines.  The
nodes a unit's own walk comes by are themselves hereditary, so everything that is reached
from them by taking parts has been visited.
-/

namespace TypeTrace

namespace Syntax

/-- A family of nodes that holds the parts of every node it holds. -/
def Hereditary (family : Node → Prop) : Prop :=
  ∀ ⦃node child : Node⦄, family node → child ∈ node.children → family child

variable {reach : Reach} {pending : List Visit} {visit : Visit}

theorem mem_walk_of_mem_pending (member : visit ∈ pending) :
    visit ∈ walk reach pending := by
  induction pending using walk.induct reach with
  | case1 => cases member
  | case2 head rest ih =>
      rw [walk]
      rcases List.mem_cons.mp member with equal | member
      · exact List.mem_cons.mpr (.inl equal)
      · exact List.mem_cons_of_mem head (ih (List.mem_append_right _ member))

/-- A walk comes by the parts of each visit that it goes on from. -/
theorem mem_walk_of_mem_parts {part : Visit} (member : visit ∈ walk reach pending)
    (isPart : part ∈ visit.parts reach) : part ∈ walk reach pending := by
  induction pending using walk.induct reach with
  | case1 => simp [walk] at member
  | case2 head rest ih =>
      rw [walk] at member ⊢
      apply List.mem_cons_of_mem
      rcases List.mem_cons.mp member with equal | member
      · subst equal
        exact mem_walk_of_mem_pending (List.mem_append_left _ isPart)
      · exact ih member

theorem Visit.mem_children_of_mem_parts {part : Visit}
    (isPart : part ∈ visit.parts reach) : part.node ∈ visit.node.children := by
  by_cases opened : reach.opens visit.node
  · simp only [Visit.parts, opened, ↓reduceIte, List.mem_map] at isPart
    obtain ⟨child, member, rfl⟩ := isPart
    exact member
  · simp [Visit.parts, opened] at isPart

/-- A walk that starts in a hereditary family stays in it. -/
theorem walk_within {family : Node → Prop} (hereditary : Hereditary family)
    (start : ∀ visit ∈ pending, family visit.node) :
    ∀ visit ∈ walk reach pending, family visit.node := by
  induction pending using walk.induct reach with
  | case1 => simp [walk]
  | case2 head rest ih =>
      have headHolds : family head.node := start head List.mem_cons_self
      rw [walk]
      intro visit member
      rcases List.mem_cons.mp member with rfl | member
      · exact headHolds
      · refine ih ?_ visit member
        intro next pendingNext
        rcases List.mem_append.mp pendingNext with isPart | later
        · exact hereditary headHolds (Visit.mem_children_of_mem_parts isPart)
        · exact start next (List.mem_cons_of_mem head later)

theorem bodyVisits_within {family : Node → Prop} (hereditary : Hereditary family)
    {body : Suite} (start : ∀ statement ∈ body, family (.stmt statement)) :
    ∀ visit ∈ bodyVisits body, family visit.node := by
  apply walk_within hereditary
  intro visit member
  simp only [roots, Node.ofSuite, List.map_map, List.mem_map] at member
  obtain ⟨statement, inBody, rfl⟩ := member
  exact start statement inBody

/-- The walk over a suite leaves no part of a visited node out. -/
theorem moduleVisits_hereditary (suite : Suite) :
    Hereditary fun node => ∃ visit ∈ moduleVisits suite, visit.node = node := by
  intro node child visited isChild
  obtain ⟨visit, member, rfl⟩ := visited
  refine ⟨⟨child, visit.conditional || visit.node.isBranching⟩, ?_, rfl⟩
  apply mem_walk_of_mem_parts member
  simp only [Visit.parts, Reach.opens, ↓reduceIte, List.mem_map]
  exact ⟨child, isChild, rfl⟩

/-- The statements a function runs are parts of the statement that defines it. -/
theorem Stmt.mem_children_of_mem_body {statement part : Stmt} {function : Function}
    (defines : statement.function? = some function) (member : part ∈ function.body) :
    Node.stmt part ∈ statement.children := by
  cases statement with
  | functionDef =>
      cases defines
      simp only [Stmt.children, Node.ofSuite, List.mem_append, List.mem_map]
      exact .inr ⟨part, member, rfl⟩
  | _ => cases defines

theorem Stmt.mem_children_of_mem_inner {statement part : Stmt}
    (member : part ∈ statement.inner) : Node.stmt part ∈ statement.children := by
  obtain ⟨node, child, equal⟩ := List.mem_filterMap.mp member
  cases node with
  | stmt other =>
      cases equal
      exact child
  | expr _ => cases equal
  | param _ => cases equal

/-- Every function that a statement of a hereditary family defines, at any depth, is
defined by a statement of the family. -/
theorem Stmt.definitions_within {family : Node → Prop} (hereditary : Hereditary family)
    {owner : Option String} {statement : Stmt} (whole : family (.stmt statement)) :
    ∀ definition ∈ statement.definitions owner,
      ∃ source, family (.stmt source) ∧ source.function? = some definition.function := by
  induction owner, statement using Stmt.definitions.induct with
  | case1 owner span isAsync name signature returns decorators body ih =>
      intro definition member
      rw [Stmt.definitions] at member
      rcases List.mem_cons.mp member with rfl | member
      · exact ⟨_, whole, rfl⟩
      · obtain ⟨⟨part, inBody⟩, _, member⟩ := List.mem_flatMap.mp member
        have isChild := @Stmt.mem_children_of_mem_body
          (.functionDef span isAsync name signature returns decorators body) part _ rfl inBody
        exact ih part inBody (hereditary whole isChild) definition member
  | case2 owner span name bases keywords decorators body ih =>
      intro definition member
      rw [Stmt.definitions] at member
      obtain ⟨⟨part, inBody⟩, _, member⟩ := List.mem_flatMap.mp member
      refine ih part inBody (hereditary whole ?_) definition member
      simp only [Node.children, Stmt.children, Node.ofSuite, List.mem_append, List.mem_map]
      exact .inr ⟨part, inBody, rfl⟩
  | case3 owner statement noFunction noClass ih =>
      intro definition member
      rw [Stmt.definitions.eq_3 _ _ noFunction noClass] at member
      obtain ⟨⟨part, inside⟩, _, member⟩ := List.mem_flatMap.mp member
      exact ih part inside (hereditary whole (Stmt.mem_children_of_mem_inner inside))
        definition member

end Syntax

open Syntax

namespace SourceUnit

variable {unit : SourceUnit}

/-- A node that the walk over a unit comes by. -/
def Visited (unit : SourceUnit) (node : Node) : Prop :=
  ∃ visit ∈ unit.visits, visit.node = node

theorem Visited.of_mem_suite {statement : Stmt} (member : statement ∈ unit.suite) :
    unit.Visited (.stmt statement) := by
  refine ⟨⟨.stmt statement, false⟩, mem_walk_of_mem_pending ?_, rfl⟩
  simp only [roots, Node.ofSuite, List.map_map, List.mem_map]
  exact ⟨statement, member, rfl⟩

/-- The walk over a unit leaves no part of a visited node out. -/
theorem visited_hereditary (unit : SourceUnit) : Hereditary unit.Visited :=
  moduleVisits_hereditary unit.suite

/-- The returns of a function defined in a unit, and all else in its body, are visited. -/
theorem visited_of_mem_bodyVisits {definition : Definition}
    (defined : definition ∈ definitions unit.suite) {visit : Visit}
    (member : visit ∈ bodyVisits definition.function.body) : unit.Visited visit.node := by
  obtain ⟨statement, inSuite, found⟩ := List.mem_flatMap.mp defined
  obtain ⟨source, visited, defines⟩ :=
    Stmt.definitions_within unit.visited_hereditary (Visited.of_mem_suite inSuite)
      definition found
  refine bodyVisits_within unit.visited_hereditary ?_ visit member
  intro part inBody
  exact unit.visited_hereditary visited (Stmt.mem_children_of_mem_body defines inBody)

end SourceUnit

end TypeTrace
