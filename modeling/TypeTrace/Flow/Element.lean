import TypeTrace.Source.Naming
import TypeTrace.Syntax.Locate
import TypeTrace.Syntax.Scope

/-!
# Elements that can be asked about

An offset points at a parameter, at a place where a parameter is read, or at some other
name or attribute chain.  Anything else cannot be followed.
-/

namespace TypeTrace.Flow

open Syntax

/-- What an offset points at. -/
inductive Element where
  /-- A parameter of a function, or of a lambda if there is no function. -/
  | parameter (parameter : Parameter Expr) (function : Option Function)
  /-- A name that reads a parameter of the function around it. -/
  | parameterUse (parameter : Parameter Expr) (function : Function)
  /-- A name or attribute chain and the text it is known by. -/
  | variable (expression : Expr) (text : String)

/-- Why an offset cannot be asked about. -/
inductive ResolutionError where
  | noContainingFile (path : String)
  | noElementAtOffset (offset : Nat)
  | notVariableLike (offset : Nat)
  deriving Repr, DecidableEq, Inhabited

/-- The wording of an error. -/
def ResolutionError.message : ResolutionError → String
  | .noContainingFile path => "no source unit registered for " ++ path
  | .noElementAtOffset offset => "no syntax node at offset " ++ toString offset
  | .notVariableLike offset =>
      "element at offset " ++ toString offset ++
        " is not a variable, parameter or call"

/-- Whether a parameter takes any number of arguments. -/
def isVariadic (parameter : Parameter Expr) : Bool :=
  parameter.kind == .variadic || parameter.kind == .keywords

/-- The parameter of a lambda that a name means.  Parameters that take any number of
arguments come last. -/
def lambdaParameter? (signature : List (Formal Expr)) (name : String) :
    Option (Parameter Expr) :=
  let parameters := signature.map (·.parameter)
  let ordered := parameters.filter (! isVariadic ·) ++ parameters.filter isVariadic
  ordered.find? (·.name == name)

/-- The parameter that a name reads, by the nodes around it, innermost first: one of a
lambda on the way out, or else one of the first function. -/
def readParameter? (name : String) : List Node → Option Element
  | [] => none
  | .expr (.lambda _ signature _) :: outer =>
      match lambdaParameter? signature name with
      | some parameter => some (.parameter parameter none)
      | none => readParameter? name outer
  | node :: outer =>
      match node.function? with
      | some function =>
          (function.parameter? name).map (.parameterUse · function)
      | none => readParameter? name outer

/-- The parameter that an expression reads, if it is a loaded name. -/
def parameterRead? (path : List Node) : Expr → Option Element
  | .name _ id .load => readParameter? id path.reverse
  | _ => none

/-- The function that the node before the last one on a path defines. -/
def owningFunction? (path : List Node) : Option Function :=
  path.reverse[1]?.bind Node.function?

/-- What an offset of a unit points at. -/
def classify (unit : SourceUnit) (offset : Nat) : Except ResolutionError Element :=
  let path := locate unit.suite offset
  match path.getLast? with
  | none => .error (.noElementAtOffset offset)
  | some (.param parameter) => .ok (.parameter parameter (owningFunction? path))
  | some (.expr expression) =>
      if expression.isVariable then
        .ok ((parameterRead? path expression).getD
          (.variable expression (unit.nameText expression)))
      else
        .error (.notVariableLike offset)
  | some (.stmt _) => .error (.notVariableLike offset)

end TypeTrace.Flow
