import TypeTrace.Source.Unit

/-!
# What names and calls are known by

A variable is known by its text: a name by its identifier, an attribute chain by the
source it is written as.  A call is known by the text of its callee.
-/

namespace TypeTrace

open Syntax

/-- Names and attribute chains, the expressions that stand for a variable. -/
def Syntax.Expr.isVariable : Expr → Bool
  | .name .. => true
  | .attribute .. => true
  | _ => false

/-- A call expression with its parts. -/
structure CallSite where
  span : Span
  callee : Expr
  arguments : List Expr
  keywords : List Expr

namespace CallSite

/-- The call itself. -/
def expression (site : CallSite) : Expr :=
  .call site.span site.callee site.arguments site.keywords

/-- The last name of the callee: `f` in `f()` and in `object.f()`. -/
def calleeName? (site : CallSite) : Option String :=
  match site.callee with
  | .name _ id _ => some id
  | .attribute _ _ name _ => some name
  | _ => none

end CallSite

/-- The call that an expression is. -/
def Syntax.Expr.callSite? : Expr → Option CallSite
  | .call span callee arguments keywords => some ⟨span, callee, arguments, keywords⟩
  | _ => none

namespace SourceUnit

/-- The text an expression is known by. -/
def nameText (unit : SourceUnit) : Expr → String
  | .name _ id _ => id
  | expression => unit.slice expression.span

/-- The text of a callee. -/
def calleeText (unit : SourceUnit) (site : CallSite) : String :=
  unit.nameText site.callee

/-- The label of a call. -/
def callLabel (unit : SourceUnit) (site : CallSite) : String :=
  unit.calleeText site ++ "()"

/-- Every call of the unit in source order. -/
def calls (unit : SourceUnit) : List CallSite :=
  unit.visits.filterMap fun visit => visit.node.expr?.bind Expr.callSite?

end SourceUnit

end TypeTrace
