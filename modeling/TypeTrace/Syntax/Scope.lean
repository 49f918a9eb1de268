import TypeTrace.Syntax.Function

/-!
# Scopes

The innermost function, class and scope on a path of nodes, as `locate` leaves it.
-/

namespace TypeTrace.Syntax

/-- The innermost function on a path. -/
def enclosingFunction? (path : List Node) : Option Function :=
  path.reverse.findSome? Node.function?

/-- The name of the innermost class on a path. -/
def enclosingClass? (path : List Node) : Option String :=
  path.reverse.findSome? Node.className?

/-- What owns the names that are introduced somewhere. -/
inductive ScopeOwner where
  | module
  | function (name : String)
  | class (name : String)
  | lambda
  | comprehension
  deriving Repr, DecidableEq, Inhabited

/-- The scope that a node opens. -/
def Node.scope? : Node → Option ScopeOwner
  | .stmt (.functionDef _ _ name ..) => some (.function name)
  | .stmt (.classDef _ name ..) => some (.class name)
  | .expr (.lambda ..) => some .lambda
  | .expr (.comprehension ..) => some .comprehension
  | .expr (.dictComp ..) => some .comprehension
  | _ => none

/-- The innermost scope on a path, the module if nothing closer opens one. -/
def scopeOwner (path : List Node) : ScopeOwner :=
  (path.reverse.findSome? Node.scope?).getD .module

end TypeTrace.Syntax
