import TypeTrace.Config
import TypeTrace.Flow.Entry
import TypeTrace.Text.Blank

/-!
# Summaries

A summary tells how often each type occurs and on which lines.  Types are listed in the
order in which they first occur, under their labels without blanks at the ends.
-/

namespace TypeTrace.View

open TypeTrace.Flow

/-- How often a type occurs, and the line of each occurrence. -/
structure TypeStat where
  count : Nat
  lines : List Int
  deriving Repr, DecidableEq, Inhabited

/-- The types of a summary in the order of their first occurrence. -/
structure TypeSummary where
  types : List (String × TypeStat)
  deriving Repr, DecidableEq, Inhabited

/-- One more occurrence of a type. -/
def record (label : String) (line : Int) :
    List (String × TypeStat) → List (String × TypeStat)
  | [] => [(label, ⟨1, [line]⟩)]
  | (first, stat) :: rest =>
      if first = label then
        (first, ⟨stat.count + 1, stat.lines ++ [line]⟩) :: rest
      else
        (first, stat) :: record label line rest

/-- The text before the first ` (`, or all of it. -/
def beforeParenthesis : List Char → List Char
  | [] => []
  | ' ' :: '(' :: _ => []
  | character :: rest => character :: beforeParenthesis rest

namespace TypeSummary

/-- The summary of some entries. -/
def ofEntries (entries : List Entry) : TypeSummary :=
  ⟨entries.foldl (fun types entry => record (Text.trimmed entry.label) entry.line types) []⟩

/-- The number of distinct types. -/
def size (summary : TypeSummary) : Nat := summary.types.length

/-- Whether there is no type. -/
def isEmpty (summary : TypeSummary) : Bool := summary.types.isEmpty

/-- What is known about a type. -/
def get? (summary : TypeSummary) (label : String) : Option TypeStat :=
  summary.types.lookup label

/-- The types as a list to choose from. -/
def items (summary : TypeSummary) : List String :=
  summary.types.map fun (label, stat) =>
    label ++ " (" ++ toString stat.count ++ " occurrences)"

/-- The types in a few words. -/
def status (summary : TypeSummary) (config : SummaryConfig) : String :=
  if summary.isEmpty then
    ""
  else if config.warningThreshold ≤ summary.size then
    "⚠️ Types: " ++ toString summary.size
  else
    let shown := (summary.types.take config.displayLimit).map fun (label, stat) =>
      label ++ " (" ++ toString stat.count ++ ")"
    let rest :=
      if config.displayLimit < summary.size then
        " (+" ++ toString (summary.size - config.displayLimit) ++ " more)"
      else
        ""
    "Types: " ++ ", ".intercalate shown ++ rest

/-- What can be done with the types. -/
def tooltip (summary : TypeSummary) : String :=
  if summary.isEmpty then
    "No types available"
  else
    "Click to view " ++ toString summary.size ++ " types"

/-- The known lines of a type that was chosen by its label or from the list. -/
def highlightLines (summary : TypeSummary) (selection : String) : List Nat :=
  match summary.get? (String.ofList (beforeParenthesis selection.toList)) with
  | none => []
  | some stat => stat.lines.filterMap Int.toNat?

end TypeSummary

end TypeTrace.View
