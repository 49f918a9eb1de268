import TypeTrace.Syntax.Node

/-!
# Names of node kinds

The kind of a node under the name that the grammar of Python's syntax trees gives it.
-/

namespace TypeTrace.Syntax

/-- The kind of an expression. -/
def Expr.kindName : Expr → String
  | .boolOp .. => "BoolOp"
  | .namedExpr .. => "NamedExpr"
  | .binOp .. => "BinOp"
  | .unaryOp .. => "UnaryOp"
  | .lambda .. => "Lambda"
  | .ifExp .. => "IfExp"
  | .dict .. => "Dict"
  | .set .. => "Set"
  | .comprehension _ .list .. => "ListComp"
  | .comprehension _ .set .. => "SetComp"
  | .comprehension _ .generator .. => "GeneratorExp"
  | .dictComp .. => "DictComp"
  | .await .. => "Await"
  | .yield .. => "Yield"
  | .yieldFrom .. => "YieldFrom"
  | .compare .. => "Compare"
  | .call .. => "Call"
  | .formattedValue .. => "FormattedValue"
  | .joinedStr .. => "JoinedStr"
  | .constant .. => "Constant"
  | .attribute .. => "Attribute"
  | .subscript .. => "Subscript"
  | .starred .. => "Starred"
  | .name .. => "Name"
  | .sequence _ .list .. => "List"
  | .sequence _ .tuple .. => "Tuple"
  | .slice .. => "Slice"

/-- The kind of a statement without parts. -/
def SimpleStatement.kindName : SimpleStatement → String
  | .typeAlias => "TypeAlias"
  | .importModules => "Import"
  | .importNames => "ImportFrom"
  | .globalNames => "Global"
  | .nonlocalNames => "Nonlocal"
  | .pass => "Pass"
  | .breakLoop => "Break"
  | .continueLoop => "Continue"

/-- The kind of a statement. -/
def Stmt.kindName : Stmt → String
  | .functionDef _ isAsync .. => if isAsync then "AsyncFunctionDef" else "FunctionDef"
  | .classDef .. => "ClassDef"
  | .return .. => "Return"
  | .delete .. => "Delete"
  | .assign .. => "Assign"
  | .augAssign .. => "AugAssign"
  | .annAssign .. => "AnnAssign"
  | .forLoop _ isAsync .. => if isAsync then "AsyncFor" else "For"
  | .branch _ .whileLoop .. => "While"
  | .branch _ .ifThen .. => "If"
  | .withBlock _ isAsync .. => if isAsync then "AsyncWith" else "With"
  | .matchBlock .. => "Match"
  | .raise .. => "Raise"
  | .tryBlock _ isStar .. => if isStar then "TryStar" else "Try"
  | .assert .. => "Assert"
  | .expr .. => "Expr"
  | .simple _ statement => statement.kindName

/-- The kind of a node. -/
def Node.kindName : Node → String
  | .stmt statement => statement.kindName
  | .expr expression => expression.kindName
  | .param _ => "Param"

end TypeTrace.Syntax
