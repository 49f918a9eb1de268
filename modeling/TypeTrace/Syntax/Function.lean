import TypeTrace.Syntax.Node

/-!
# Functions and the classes that own them

A function statement is viewed as a `Function`, whether it is asynchronous or not.
`definitions` lists the functions of a suite, nested ones included, each with the class
whose method it is.
-/

namespace TypeTrace.Syntax

/-- What a function statement defines. -/
structure Function where
  span : Span
  name : String
  signature : List (Formal Expr)
  returns : Option Expr
  body : Suite

namespace Function

/-- The parameters in declaration order. -/
def parameters (function : Function) : List (Parameter Expr) :=
  function.signature.map (·.parameter)

/-- The first parameter of a name. -/
def parameter? (function : Function) (name : String) : Option (Parameter Expr) :=
  function.parameters.find? (·.name == name)

/-- The position of the first parameter of a name. -/
def parameterIndex? (function : Function) (name : String) : Option Nat :=
  function.parameters.findIdx? (·.name == name)

end Function

/-- The function that a statement defines. -/
def Stmt.function? : Stmt → Option Function
  | .functionDef span _ name signature returns _ body =>
      some ⟨span, name, signature, returns, body⟩
  | _ => none

/-- The function that a node defines. -/
def Node.function? : Node → Option Function
  | .stmt statement => statement.function?
  | _ => none

/-- The name of the class that a node defines. -/
def Node.className? : Node → Option String
  | .stmt (.classDef _ name ..) => some name
  | _ => none

/-- A function and the class it is a method of. -/
structure Definition where
  function : Function
  owner : Option String

/-- The statements among the parts of a statement. -/
def Stmt.inner (statement : Stmt) : Suite :=
  statement.children.filterMap Node.stmt?

theorem Stmt.sizeOf_lt_of_mem_inner {statement part : Stmt}
    (member : part ∈ statement.inner) : sizeOf part < sizeOf statement := by
  obtain ⟨node, child, equal⟩ := List.mem_filterMap.mp member
  cases node with
  | stmt other =>
      cases equal
      exact @Node.size_lt_of_mem_children (.stmt statement) _ child
  | expr _ => cases equal
  | param _ => cases equal

/-- The functions that a statement of a class or of no class defines: a function
belongs to the class around it unless another function stands between them. -/
def Stmt.definitions (owner : Option String) (statement : Stmt) : List Definition :=
  match statement with
  | .functionDef span _ name signature returns _ body =>
      ⟨⟨span, name, signature, returns, body⟩, owner⟩ ::
        body.attach.flatMap fun ⟨part, _⟩ => part.definitions none
  | .classDef _ name _ _ _ body =>
      body.attach.flatMap fun ⟨part, _⟩ => part.definitions (some name)
  | other => other.inner.attach.flatMap fun ⟨part, _⟩ => part.definitions owner
termination_by sizeOf statement
decreasing_by
  · have smaller := List.sizeOf_lt_of_mem ‹part ∈ body›
    simp only [Stmt.functionDef.sizeOf_spec]
    omega
  · have smaller := List.sizeOf_lt_of_mem ‹part ∈ body›
    simp only [Stmt.classDef.sizeOf_spec]
    omega
  · exact Stmt.sizeOf_lt_of_mem_inner ‹part ∈ other.inner›

/-- The functions of a suite in source order. -/
def definitions (suite : Suite) : List Definition :=
  suite.flatMap (Stmt.definitions none)

end TypeTrace.Syntax
