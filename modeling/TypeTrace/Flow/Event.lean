import TypeTrace.Flow.Search
import TypeTrace.Oracle.Basic
import TypeTrace.Types.Hint

/-!
# Events

Evidence becomes entries once an oracle and a limit are given.  The entries of one
piece of evidence form a batch, and a batch without entries is no event.
-/

namespace TypeTrace.Flow

open TypeTrace.Syntax TypeTrace.Types

/-- Something that a resolution reports. -/
inductive Event where
  | enter (entry : Entry)
  | emit (batch : List Entry)
  | exit

/-- The labels of a piece of evidence.  A call without a type is labelled by itself. -/
def Evidence.labels (oracle : Oracle) (limit : Option Nat) (unit : SourceUnit) :
    Evidence → List String
  | .hint _ text => unionMembers (hintText text) limit
  | .nothing _ => ["None"]
  | .value expression =>
      match oracle unit expression with
      | some type => type.labels limit
      | none => (expression.callSite?.map unit.callLabel).toList

/-- The node that evidence is found at. -/
def Evidence.node : Evidence → Node
  | .hint node _ => node
  | .nothing node => node
  | .value expression => .expr expression

/-- The entries of a piece of evidence. -/
def Evidence.batch (oracle : Oracle) (limit : Option Nat) (unit : SourceUnit)
    (evidence : Evidence) : List Entry :=
  (evidence.labels oracle limit unit).map (Entry.ofNode unit evidence.node)

/-- The event that a step is, unless it is evidence without entries. -/
def Step.event? (oracle : Oracle) (limit : Option Nat) (unit : SourceUnit) :
    Step → Option Event
  | .enter entry => some (.enter entry)
  | .exit => some .exit
  | .found evidence =>
      match evidence.batch oracle limit unit with
      | [] => none
      | batch => some (.emit batch)

/-- The events of a resolution. -/
def events (oracle : Oracle) (limit : Option Nat) (unit : SourceUnit) (element : Element) :
    List Event :=
  (trace unit element).filterMap (Step.event? oracle limit unit)

/-- The entries that an event reports. -/
def Event.entries : Event → List Entry
  | .emit batch => batch
  | _ => []

/-- All entries that are reported, in order. -/
def flatEntries (events : List Event) : List Entry :=
  events.flatMap Event.entries

end TypeTrace.Flow
