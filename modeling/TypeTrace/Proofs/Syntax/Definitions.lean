import TypeTrace.Proofs.Syntax.Preorder
import TypeTrace.Syntax.Function

/-!
# Functions that a walk comes by

`definitions` collects the functions of a suite without a walk.  It goes from statement to
statement, never into expressions, and hands the class around them down, which a function
stops.  Still it lists what a walk over the suite comes by, and the class that is handed
down to a function is the definition nearest around it, if that is a class
(`flatMap_definitions_eq`).
-/

namespace TypeTrace.Syntax

/-! ## Statements among nodes -/

namespace Node

@[simp] theorem statements_ofExprs (expressions : List Expr) :
    (ofExprs expressions).filterMap stmt? = [] := by
  simp [ofExprs, stmt?]

@[simp] theorem statements_ofExpr? (expression : Option Expr) :
    (ofExpr? expression).filterMap stmt? = [] := by
  cases expression with
  | none => rfl
  | some expression => rfl

theorem statements_flatMap {α : Type} {parts : α → List Node} (whole : List α)
    (none : ∀ part, (parts part).filterMap stmt? = []) :
    (whole.flatMap parts).filterMap stmt? = [] := by
  rw [List.filterMap_flatMap, List.flatMap_eq_nil_iff]
  intro part _
  exact none part

@[simp] theorem statements_ofSignature (signature : List (Formal Expr)) :
    (ofSignature signature).filterMap stmt? = [] := by
  apply statements_flatMap
  intro formal
  exact statements_ofExpr? formal.default

@[simp] theorem statements_ofGenerators (generators : List (Generator Expr)) :
    (ofGenerators generators).filterMap stmt? = [] := by
  apply statements_flatMap
  intro generator
  exact statements_ofExprs generator.conditions

@[simp] theorem statements_ofDictItems (items : List (DictItem Expr)) :
    (ofDictItems items).filterMap stmt? = [] := by
  apply statements_flatMap
  intro item
  rw [List.filterMap_append, statements_ofExpr?]
  rfl

@[simp] theorem statements_ofSuite (suite : Suite) :
    (ofSuite suite).filterMap stmt? = suite := by
  simp [ofSuite, stmt?, Function.comp_def]

end Node

/-- Expressions hold no statements. -/
theorem Expr.statements_children (expression : Expr) :
    expression.children.filterMap Node.stmt? = [] := by
  cases expression <;>
    simp only [Expr.children, List.filterMap_cons, List.filterMap_append, List.filterMap_nil,
      List.append_nil, Node.stmt?, Node.statements_ofExprs, Node.statements_ofExpr?,
      Node.statements_ofSignature, Node.statements_ofGenerators, Node.statements_ofDictItems]

/-- Only the statements of its body are parts of a function. -/
theorem Stmt.inner_functionDef (span : Span) (isAsync : Bool) (name : String)
    (signature : List (Formal Expr)) (returns : Option Expr) (decorators : List Expr)
    (body : Suite) :
    (Stmt.functionDef span isAsync name signature returns decorators body).inner = body := by
  simp [Stmt.inner, Stmt.children]

theorem Stmt.inner_classDef (span : Span) (name : String)
    (bases keywords decorators : List Expr) (body : Suite) :
    (Stmt.classDef span name bases keywords decorators body).inner = body := by
  simp [Stmt.inner, Stmt.children]

/-! ## Owners -/

/-- Whether a node defines a function or a class. -/
def Node.isDefinition (node : Node) : Bool :=
  node.isFunction || node.className?.isSome

/-- The class that owns what stands inside some nodes, innermost first: the nearest
definition, if it is a class. -/
def owner? (ancestors : List Node) : Option String :=
  (ancestors.find? Node.isDefinition).bind Node.className?

/-- The function that is defined at an occurrence, and the class it is a method of. -/
def Occurrence.definition? (occurrence : Occurrence) : Option Definition :=
  occurrence.node.function?.map (⟨·, owner? occurrence.ancestors⟩)

/-- A statement defines the function it is, if it is one, and what the statements in it
define. -/
theorem Stmt.definitions_eq (ancestors : List Node) (statement : Stmt) :
    statement.definitions (owner? ancestors) =
      (statement.function?.map (⟨·, owner? ancestors⟩)).toList ++
        statement.inner.flatMap
          (Stmt.definitions (owner? (.stmt statement :: ancestors))) := by
  cases statement with
  | functionDef span isAsync name signature returns decorators body =>
      have isOwner : owner? (.stmt (.functionDef span isAsync name signature returns decorators
          body) :: ancestors) = none := rfl
      rw [Stmt.definitions, Stmt.inner_functionDef, isOwner]
      simp [Stmt.function?]
  | classDef span name bases keywords decorators body =>
      have isOwner : owner? (.stmt (.classDef span name bases keywords decorators body) ::
          ancestors) = some name := rfl
      rw [Stmt.definitions, Stmt.inner_classDef, isOwner]
      simp [Stmt.function?]
  | _ =>
      rw [Stmt.definitions.eq_3 _ _ (by simp) (by simp)]
      simp [Stmt.function?, owner?, Node.isDefinition, Node.isFunction, Node.className?]

theorem Node.definitions_eq (ancestors : List Node) (node : Node) :
    node.stmt?.toList.flatMap (Stmt.definitions (owner? ancestors)) =
      (node.function?.map (⟨·, owner? ancestors⟩)).toList ++
        (node.children.filterMap Node.stmt?).flatMap
          (Stmt.definitions (owner? (node :: ancestors))) := by
  cases node with
  | stmt statement =>
      rw [Node.stmt?, Option.toList_some, List.flatMap_singleton]
      exact Stmt.definitions_eq ancestors statement
  | expr expression =>
      rw [Node.children, Expr.statements_children]
      rfl
  | param parameter =>
      rw [Node.children, Node.statements_ofExpr?]
      rfl

/-- What the statements among some nodes define is what stands among the nodes or below
them. -/
theorem flatMap_definitions_eq (address : List Nat) (ancestors : List Node) (position : Nat)
    (nodes : List Node) :
    (nodes.filterMap Node.stmt?).flatMap (Stmt.definitions (owner? ancestors)) =
      (occurrencesFrom address ancestors position nodes).filterMap Occurrence.definition? := by
  induction address, ancestors, position, nodes using occurrencesFrom.induct with
  | case1 => simp [occurrencesFrom]
  | case2 address ancestors position node rest below after =>
      have here := Node.definitions_eq ancestors node
      simp only [List.filterMap_eq_flatMap_toList] at here below after ⊢
      rw [occurrencesFrom, List.flatMap_cons, List.flatMap_append, List.flatMap_cons,
        List.flatMap_append, ← below, ← after, here, List.append_assoc]
      rfl

/-- For every suite, the definitions are the functions that a walk comes by, in the same
order, each with the class nearest around it unless a function is nearer. -/
theorem definitions_walked (suite : Suite) :
    definitions suite = (occurrences suite).filterMap Occurrence.definition? ∧
    (definitions suite).map (·.function) =
      (moduleVisits suite).filterMap (·.node.function?) ∧
    moduleVisits suite = (occurrences suite).map Occurrence.visit ∧
    InPreorder suite (occurrences suite) := by
  have isList : definitions suite =
      (occurrences suite).filterMap Occurrence.definition? := by
    rw [occurrences, ← flatMap_definitions_eq, Node.statements_ofSuite]
    rfl
  refine ⟨isList, ?_, moduleVisits_eq suite, occurrences_inPreorder suite⟩
  rw [isList, moduleVisits_eq, List.map_filterMap, List.filterMap_map]
  apply List.filterMap_congr
  intro occurrence _
  cases isFunction : occurrence.node.function? with
  | none => simp [Occurrence.definition?, Occurrence.visit, isFunction]
  | some function => simp [Occurrence.definition?, Occurrence.visit, isFunction]

end TypeTrace.Syntax
