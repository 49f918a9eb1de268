import TypeTrace.Syntax.Walk
import TypeTrace.Text.Lines

/-!
# Source units

A source unit is a file that has been parsed: where it is, what it says, and its
syntax tree.  The tree refers to the text by byte offsets.
-/

namespace TypeTrace

open Syntax

/-- A parsed file. -/
structure SourceUnit where
  path : String
  text : List Char
  suite : Suite
  deriving Inhabited

namespace SourceUnit

/-- Line of an offset, or the unknown line outside the text. -/
def lineOf (unit : SourceUnit) (offset : Nat) : Int :=
  Text.lineOf unit.text offset

/-- Offset of a column of a line. -/
def offsetOf (unit : SourceUnit) (line column : Nat) :
    Except Text.Overflow (Option Nat) :=
  Text.offsetOf unit.text line column

/-- The text that a span covers, empty unless it is a run of whole characters. -/
def slice (unit : SourceUnit) (span : Span) : String :=
  String.ofList ((Text.sliceBytes? unit.text span.start span.stop).getD [])

/-- Every node of the unit in source order. -/
def visits (unit : SourceUnit) : List Visit :=
  moduleVisits unit.suite

/-- Whether the unit defines a class of a name, at any depth. -/
def definesClass (unit : SourceUnit) (name : String) : Bool :=
  unit.visits.any fun visit =>
    match visit.node with
    | .stmt (.classDef _ className ..) => className == name
    | _ => false

end SourceUnit

end TypeTrace
