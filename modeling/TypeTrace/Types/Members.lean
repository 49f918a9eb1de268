import TypeTrace.Text.Blank

/-!
# Members of a union written as text

`int | list[str | None]` has two members: a bar separates members only outside
brackets.  Brackets of all three kinds share one depth, and a closing bracket
without a partner is ignored.
-/

namespace TypeTrace.Types

/-- Bracket depth behind a character.  It never falls below zero. -/
def depthAfter (depth : Nat) (character : Char) : Nat :=
  if character = '[' ∨ character = '(' ∨ character = '\x7b' then
    depth + 1
  else if character = ']' ∨ character = ')' ∨ character = '\x7d' then
    depth - 1
  else
    depth

/-- The pieces of a text between the bars at depth zero, as they are written. -/
def pieces (depth : Nat) : List Char → List (List Char)
  | [] => [[]]
  | character :: rest =>
      if character = '|' ∧ depth = 0 then
        [] :: pieces 0 rest
      else
        (pieces (depthAfter depth character) rest).modifyHead (character :: ·)

/-- The trimmed pieces that are not blank. -/
def members (text : List Char) : List (List Char) :=
  ((pieces 0 text).map Text.trim).filter (! ·.isEmpty)

/-- The first elements of a list, as many as a limit admits. -/
def capped {α : Type} : Option Nat → List α → List α
  | none, values => values
  | some limit, values => values.take limit

/-- The members of a union under a limit on their number. -/
def unionMembers (text : String) (limit : Option Nat) : List String :=
  capped limit ((members text.toList).map String.ofList)

end TypeTrace.Types
