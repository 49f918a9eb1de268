import TypeTrace.Syntax.Tree

/-!
# Nodes

A node is a statement, an expression or a parameter.  `Node.children` is the one place
that fixes which parts a node has and in which order they are visited: a default value
follows its parameter, and a conditional expression is read body, test, alternative.

Every child is smaller than its node, and so are all children together
(`Node.sizes_children_lt`).  That is what recursion over nodes rests on.
-/

namespace TypeTrace.Syntax

/-- A statement, expression or parameter of a syntax tree. -/
inductive Node where
  | stmt (statement : Stmt)
  | expr (expression : Expr)
  | param (parameter : Parameter Expr)
  deriving Inhabited

namespace Node

/-- The bytes a node covers. -/
def span : Node → Span
  | .stmt statement => statement.span
  | .expr expression => expression.span
  | .param parameter => parameter.span

/-- The offset a node begins at. -/
def start (node : Node) : Nat := node.span.start

/-- Whether a node covers an offset. -/
def covers (node : Node) (offset : Nat) : Bool := node.span.contains offset

/-- The expression a node is, if it is one. -/
def expr? : Node → Option Expr
  | .expr expression => some expression
  | _ => none

/-- The statement a node is, if it is one. -/
def stmt? : Node → Option Stmt
  | .stmt statement => some statement
  | _ => none

/-- Expressions as nodes. -/
def ofExprs (expressions : List Expr) : List Node := expressions.map .expr

/-- An expression that may be missing, as nodes. -/
def ofExpr? : Option Expr → List Node
  | none => []
  | some expression => [.expr expression]

/-- The statements of a block as nodes. -/
def ofSuite (suite : Suite) : List Node := suite.map .stmt

/-- A signature as nodes: each parameter and then its default. -/
def ofSignature (signature : List (Formal Expr)) : List Node :=
  signature.flatMap fun formal => .param formal.parameter :: ofExpr? formal.default

/-- The generators of a comprehension as nodes. -/
def ofGenerators (generators : List (Generator Expr)) : List Node :=
  generators.flatMap fun generator =>
    .expr generator.target :: .expr generator.source :: ofExprs generator.conditions

/-- The items of a dictionary display as nodes. -/
def ofDictItems (items : List (DictItem Expr)) : List Node :=
  items.flatMap fun item => ofExpr? item.key ++ [.expr item.value]

/-- The context managers of a `with` as nodes. -/
def ofWithItems (items : List WithItem) : List Node :=
  items.flatMap fun item => .expr item.context :: ofExpr? item.target

/-- Handlers or cases as nodes: the head of each and then its block. -/
def ofClauses (clauses : List (Clause Stmt)) : List Node :=
  clauses.flatMap fun clause => ofExpr? clause.head ++ ofSuite clause.body

end Node

/-- The direct parts of an expression, in the order they are visited. -/
def Expr.children : Expr → List Node
  | .boolOp _ _ values => Node.ofExprs values
  | .namedExpr _ target value => [.expr target, .expr value]
  | .binOp _ left _ right => [.expr left, .expr right]
  | .unaryOp _ _ operand => [.expr operand]
  | .lambda _ signature body => Node.ofSignature signature ++ [.expr body]
  | .ifExp _ test body orelse => [.expr body, .expr test, .expr orelse]
  | .dict _ items => Node.ofDictItems items
  | .set _ elements => Node.ofExprs elements
  | .comprehension _ _ element generators =>
      .expr element :: Node.ofGenerators generators
  | .dictComp _ key value generators =>
      .expr key :: .expr value :: Node.ofGenerators generators
  | .await _ value => [.expr value]
  | .yield _ value => Node.ofExpr? value
  | .yieldFrom _ value => [.expr value]
  | .compare _ left comparators => .expr left :: Node.ofExprs comparators
  | .call _ callee arguments keywords =>
      .expr callee :: (Node.ofExprs arguments ++ Node.ofExprs keywords)
  | .formattedValue _ value spec => .expr value :: Node.ofExpr? spec
  | .joinedStr _ values => Node.ofExprs values
  | .constant _ _ => []
  | .attribute _ value _ _ => [.expr value]
  | .subscript _ value index _ => [.expr value, .expr index]
  | .starred _ value _ => [.expr value]
  | .name _ _ _ => []
  | .sequence _ _ elements _ => Node.ofExprs elements
  | .slice _ lower upper step =>
      Node.ofExpr? lower ++ Node.ofExpr? upper ++ Node.ofExpr? step

/-- The direct parts of a statement, in the order they are visited. -/
def Stmt.children : Stmt → List Node
  | .functionDef _ _ _ signature returns decorators body =>
      Node.ofExprs decorators ++ Node.ofSignature signature ++ Node.ofExpr? returns ++
        Node.ofSuite body
  | .classDef _ _ bases keywords decorators body =>
      Node.ofExprs decorators ++ Node.ofExprs bases ++ Node.ofExprs keywords ++
        Node.ofSuite body
  | .return _ value => Node.ofExpr? value
  | .delete _ targets => Node.ofExprs targets
  | .assign _ targets value => Node.ofExprs targets ++ [.expr value]
  | .augAssign _ target _ value => [.expr target, .expr value]
  | .annAssign _ target hint value =>
      .expr target :: .expr hint :: Node.ofExpr? value
  | .forLoop _ _ target source body orelse =>
      .expr target :: .expr source :: (Node.ofSuite body ++ Node.ofSuite orelse)
  | .branch _ _ test body orelse =>
      .expr test :: (Node.ofSuite body ++ Node.ofSuite orelse)
  | .withBlock _ _ items body => Node.ofWithItems items ++ Node.ofSuite body
  | .matchBlock _ subject cases => .expr subject :: Node.ofClauses cases
  | .raise _ exception cause => Node.ofExpr? exception ++ Node.ofExpr? cause
  | .tryBlock _ _ body handlers orelse finalbody =>
      Node.ofSuite body ++ Node.ofClauses handlers ++ Node.ofSuite orelse ++
        Node.ofSuite finalbody
  | .assert _ test message => .expr test :: Node.ofExpr? message
  | .expr _ value => [.expr value]
  | .simple _ _ => []

namespace Node

/-- The direct parts of a node, in the order they are visited. -/
def children : Node → List Node
  | .stmt statement => statement.children
  | .expr expression => expression.children
  | .param parameter => ofExpr? parameter.hint

/-- The size of a node, by the size of what it holds.  Only termination proofs use it. -/
noncomputable def size : Node → Nat
  | .stmt statement => sizeOf statement
  | .expr expression => sizeOf expression
  | .param parameter => sizeOf parameter

/-- The size of a list of nodes. -/
noncomputable def sizes (nodes : List Node) : Nat :=
  nodes.foldr (fun node total => node.size + total) 0

@[simp] theorem sizes_nil : sizes [] = 0 := rfl

@[simp] theorem sizes_cons (node : Node) (nodes : List Node) :
    sizes (node :: nodes) = node.size + sizes nodes := rfl

@[simp] theorem sizes_append (left right : List Node) :
    sizes (left ++ right) = sizes left + sizes right := by
  induction left with
  | nil => simp
  | cons head rest ih => simp only [List.cons_append, sizes_cons, ih, Nat.add_assoc]

theorem size_le_sizes {node : Node} {nodes : List Node} (member : node ∈ nodes) :
    node.size ≤ sizes nodes := by
  induction nodes with
  | nil => cases member
  | cons head rest ih =>
      rcases List.mem_cons.mp member with rfl | member
      · simp
      · have smaller := ih member
        simp only [sizes_cons]
        omega

theorem sizes_ofExprs (expressions : List Expr) :
    sizes (ofExprs expressions) ≤ sizeOf expressions := by
  induction expressions with
  | nil => simp [ofExprs]
  | cons head rest ih =>
      simp only [ofExprs, List.map_cons, sizes_cons, size, List.cons.sizeOf_spec] at ih ⊢
      omega

theorem sizes_ofExpr? (expression : Option Expr) :
    sizes (ofExpr? expression) ≤ sizeOf expression := by
  cases expression with
  | none => simp [ofExpr?]
  | some expression => simp [ofExpr?, size]

theorem sizes_ofSuite (suite : Suite) : sizes (ofSuite suite) ≤ sizeOf suite := by
  induction suite with
  | nil => simp [ofSuite]
  | cons head rest ih =>
      simp only [ofSuite, List.map_cons, sizes_cons, size, List.cons.sizeOf_spec] at ih ⊢
      omega

theorem sizes_ofSignature (signature : List (Formal Expr)) :
    sizes (ofSignature signature) ≤ sizeOf signature := by
  induction signature with
  | nil => simp [ofSignature]
  | cons head rest ih =>
      have default := sizes_ofExpr? head.default
      cases head
      simp only [ofSignature, List.flatMap_cons, sizes_append, sizes_cons, size,
        List.cons.sizeOf_spec, Formal.mk.sizeOf_spec] at ih default ⊢
      omega

theorem sizes_ofGenerators (generators : List (Generator Expr)) :
    sizes (ofGenerators generators) ≤ sizeOf generators := by
  induction generators with
  | nil => simp [ofGenerators]
  | cons head rest ih =>
      have conditions := sizes_ofExprs head.conditions
      cases head
      simp only [ofGenerators, List.flatMap_cons, sizes_append, sizes_cons, size,
        List.cons.sizeOf_spec, Generator.mk.sizeOf_spec] at ih conditions ⊢
      omega

theorem sizes_ofDictItems (items : List (DictItem Expr)) :
    sizes (ofDictItems items) ≤ sizeOf items := by
  induction items with
  | nil => simp [ofDictItems]
  | cons head rest ih =>
      have key := sizes_ofExpr? head.key
      cases head
      simp only [ofDictItems, List.flatMap_cons, sizes_append, sizes_cons, sizes_nil, size,
        List.cons.sizeOf_spec, DictItem.mk.sizeOf_spec] at ih key ⊢
      omega

theorem sizes_ofWithItems (items : List WithItem) :
    sizes (ofWithItems items) ≤ sizeOf items := by
  induction items with
  | nil => simp [ofWithItems]
  | cons head rest ih =>
      have target := sizes_ofExpr? head.target
      cases head
      simp only [ofWithItems, List.flatMap_cons, sizes_append, sizes_cons, size,
        List.cons.sizeOf_spec, WithItem.mk.sizeOf_spec] at ih target ⊢
      omega

theorem sizes_ofClauses (clauses : List (Clause Stmt)) :
    sizes (ofClauses clauses) ≤ sizeOf clauses := by
  induction clauses with
  | nil => simp [ofClauses]
  | cons clause rest ih =>
      have head := sizes_ofExpr? clause.head
      have body := sizes_ofSuite clause.body
      cases clause
      simp only [ofClauses, List.flatMap_cons, sizes_append,
        List.cons.sizeOf_spec, Clause.mk.sizeOf_spec] at ih head body ⊢
      omega

theorem sizes_children_expr (expression : Expr) :
    sizes expression.children < sizeOf expression := by
  cases expression <;>
    simp only [Expr.children, sizes_cons, sizes_append, sizes_nil, size,
      Expr.boolOp.sizeOf_spec, Expr.namedExpr.sizeOf_spec, Expr.binOp.sizeOf_spec,
      Expr.unaryOp.sizeOf_spec, Expr.lambda.sizeOf_spec, Expr.ifExp.sizeOf_spec,
      Expr.dict.sizeOf_spec, Expr.set.sizeOf_spec, Expr.comprehension.sizeOf_spec,
      Expr.dictComp.sizeOf_spec, Expr.await.sizeOf_spec, Expr.yield.sizeOf_spec,
      Expr.yieldFrom.sizeOf_spec, Expr.compare.sizeOf_spec, Expr.call.sizeOf_spec,
      Expr.formattedValue.sizeOf_spec, Expr.joinedStr.sizeOf_spec,
      Expr.constant.sizeOf_spec, Expr.attribute.sizeOf_spec, Expr.subscript.sizeOf_spec,
      Expr.starred.sizeOf_spec, Expr.name.sizeOf_spec, Expr.sequence.sizeOf_spec,
      Expr.slice.sizeOf_spec] <;>
    grind [sizes_ofExprs, sizes_ofExpr?, sizes_ofSignature, sizes_ofGenerators,
      sizes_ofDictItems]

theorem sizes_children_stmt (statement : Stmt) :
    sizes statement.children < sizeOf statement := by
  cases statement <;>
    simp only [Stmt.children, sizes_cons, sizes_append, sizes_nil, size,
      Stmt.functionDef.sizeOf_spec, Stmt.classDef.sizeOf_spec, Stmt.return.sizeOf_spec,
      Stmt.delete.sizeOf_spec, Stmt.assign.sizeOf_spec, Stmt.augAssign.sizeOf_spec,
      Stmt.annAssign.sizeOf_spec, Stmt.forLoop.sizeOf_spec, Stmt.branch.sizeOf_spec,
      Stmt.withBlock.sizeOf_spec, Stmt.matchBlock.sizeOf_spec, Stmt.raise.sizeOf_spec,
      Stmt.tryBlock.sizeOf_spec, Stmt.assert.sizeOf_spec, Stmt.expr.sizeOf_spec,
      Stmt.simple.sizeOf_spec] <;>
    grind [sizes_ofExprs, sizes_ofExpr?, sizes_ofSignature, sizes_ofSuite,
      sizes_ofWithItems, sizes_ofClauses]

/-- The parts of a node are together smaller than the node. -/
theorem sizes_children_lt (node : Node) : sizes node.children < node.size := by
  cases node with
  | stmt statement => exact sizes_children_stmt statement
  | expr expression => exact sizes_children_expr expression
  | param parameter =>
      have hint := sizes_ofExpr? parameter.hint
      cases parameter
      simp only [children, size, Parameter.mk.sizeOf_spec] at hint ⊢
      omega

/-- Each part of a node is smaller than the node. -/
theorem size_lt_of_mem_children {node child : Node} (member : child ∈ node.children) :
    child.size < node.size :=
  Nat.lt_of_le_of_lt (size_le_sizes member) (sizes_children_lt node)

end Node

end TypeTrace.Syntax
