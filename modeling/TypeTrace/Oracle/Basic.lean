import TypeTrace.Source.Unit
import TypeTrace.Types.Descriptor

/-!
# Oracles

An oracle knows the types of some expressions.  It is asked about an expression only
when there is nothing left to follow.
-/

namespace TypeTrace

open TypeTrace.Syntax TypeTrace.Types

/-- The type an expression of a unit has, if it is known. -/
abbrev Oracle := SourceUnit → Expr → Option Descriptor

namespace Oracle

/-- The oracle that knows expressions by how they are written: the first row with the
expression's source text decides. -/
def ofTable (rows : List (String × Descriptor)) : Oracle :=
  fun unit expression => rows.lookup (unit.slice expression.span)

end Oracle

end TypeTrace
