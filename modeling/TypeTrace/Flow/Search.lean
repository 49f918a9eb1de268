import TypeTrace.Flow.Entry
import TypeTrace.Flow.Subject

/-!
# The search

From an element the search opens its subject, works through the tasks, opens the
subjects that the followed expressions lead to, and closes each one when its tasks are
done.  A label is opened once: an expression whose label has been opened before is
passed over.  What happens is recorded as a list of steps.

The search is recursive in the number of subjects that may still be opened one inside
the other.  Labels that are open are distinct and occur in the unit, so one more than
the number of nodes is enough, which is what `trace` starts from.
-/

namespace TypeTrace.Flow

open Syntax

/-- Something that happens during a search. -/
inductive Step where
  /-- A subject is opened. -/
  | enter (entry : Entry)
  /-- Evidence is found for the subject opened last. -/
  | found (evidence : Evidence)
  /-- The subject opened last is closed. -/
  | exit

/-- What a search has done, and the labels it has opened. -/
structure Progress where
  steps : List Step
  opened : List String

namespace Progress

/-- A search that opened nothing more. -/
def idle (opened : List String) : Progress := ⟨[], opened⟩

/-- A single step that opens nothing. -/
def single (step : Step) (opened : List String) : Progress := ⟨[step], opened⟩

/-- Go on after some steps. -/
def andThen (first : Progress) (next : List String → Progress) : Progress :=
  let second := next first.opened
  ⟨first.steps ++ second.steps, second.opened⟩

end Progress

/-- A way to open a subject at a node, given the labels opened before. -/
abbrev Opening := Node → Subject → List String → Progress

/-- Work on one task. -/
def runTask (unit : SourceUnit) (enter : Opening) : Task → List String → Progress
  | .report evidence, opened => .single (.found evidence) opened
  | .follow value, opened =>
      match subject? unit value with
      | none => .single (.found (.value value)) opened
      | some subject =>
          if subject.label unit ∈ opened then
            .idle opened
          else
            enter (.expr value) subject opened

/-- Work on tasks one after the other. -/
def runTasks (unit : SourceUnit) (enter : Opening) : List Task → List String → Progress
  | [], opened => .idle opened
  | task :: rest, opened =>
      (runTask unit enter task opened).andThen (runTasks unit enter rest)

/-- Open a subject, work on its tasks and close it, with at most `depth` subjects one
inside the other. -/
def openSubject (unit : SourceUnit) : (depth : Nat) → Opening
  | 0, _, _, opened => .idle opened
  | depth + 1, node, subject, opened =>
      let label := subject.label unit
      let inner :=
        runTasks unit (openSubject unit depth) (tasks unit subject) (label :: opened)
      ⟨.enter (.ofNode unit node label) :: (inner.steps ++ [.exit]), inner.opened⟩

namespace Element

/-- The node that an element's own entry stands at. -/
def node : Element → Node
  | .parameter declared _ => .param declared
  | .parameterUse declared _ => .param declared
  | .variable expression _ => .expr expression

/-- What types flow into at an element. -/
def subject : Element → Subject
  | .parameter declared function => .parameter declared function
  | .parameterUse declared function => .parameter declared (some function)
  | .variable _ text => .variable text

end Element

/-- The search from an element. -/
def search (unit : SourceUnit) (element : Element) : Progress :=
  openSubject unit (unit.visits.length + 1) element.node element.subject []

/-- The steps of the search from an element. -/
def trace (unit : SourceUnit) (element : Element) : List Step :=
  (search unit element).steps

end TypeTrace.Flow
