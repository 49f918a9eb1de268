/-!
# Python syntax trees

Expressions and statements as a parser leaves them, each with the bytes it covers.
Only what an analysis of data flow reads is kept: the patterns of `match`, the names
of keyword arguments and the values of literals are not.

Expressions contain no statements, so the two types are declared one after the other.
-/

namespace TypeTrace.Syntax

/-- A half-open range of byte offsets. -/
structure Span where
  start : Nat
  stop : Nat
  deriving Repr, DecidableEq, Inhabited

/-- Whether a range covers an offset.  Its end lies outside. -/
def Span.contains (span : Span) (offset : Nat) : Bool :=
  span.start ≤ offset && offset < span.stop

/-- How a name, attribute, subscript or display is used where it stands. -/
inductive Context where
  | load
  | store
  | delete
  deriving Repr, DecidableEq, Inhabited

/-- The connective of a chain of truth-valued operands. -/
inductive BoolOperator where
  | and
  | or
  deriving Repr, DecidableEq, Inhabited

/-- An arithmetic, bitwise or matrix operator. -/
inductive BinaryOperator where
  | add
  | sub
  | mult
  | matMult
  | div
  | mod
  | pow
  | leftShift
  | rightShift
  | bitOr
  | bitXor
  | bitAnd
  | floorDiv
  deriving Repr, DecidableEq, Inhabited

/-- An operator in front of one operand. -/
inductive UnaryOperator where
  | invert
  | not
  | plus
  | minus
  deriving Repr, DecidableEq, Inhabited

/-- The kind of a literal. -/
inductive Literal where
  | none
  | bool
  | str
  | bytes
  | int
  | tuple
  | float
  | complex
  | ellipsis
  deriving Repr, DecidableEq, Inhabited

/-- What a comprehension with one element expression builds. -/
inductive ComprehensionKind where
  | list
  | set
  | generator
  deriving Repr, DecidableEq, Inhabited

/-- The two displays that can also be assigned to. -/
inductive SequenceKind where
  | list
  | tuple
  deriving Repr, DecidableEq, Inhabited

/-- How arguments reach a parameter. -/
inductive ParameterKind where
  | positionalOnly
  | positional
  | variadic
  | keywordOnly
  | keywords
  deriving Repr, DecidableEq, Inhabited

/-- A formal parameter over expressions `ε`. -/
structure Parameter (ε : Type) where
  span : Span
  kind : ParameterKind
  name : String
  hint : Option ε

/-- A parameter with its default value.  A function's or lambda's signature is the
list of these in declaration order. -/
structure Formal (ε : Type) where
  parameter : Parameter ε
  default : Option ε

/-- An item of a dictionary display; `**mapping` has no key. -/
structure DictItem (ε : Type) where
  key : Option ε
  value : ε

/-- One `for target in source if …` of a comprehension. -/
structure Generator (ε : Type) where
  target : ε
  source : ε
  conditions : List ε

/-- Expressions. -/
inductive Expr where
  | boolOp (span : Span) (operator : BoolOperator) (values : List Expr)
  | namedExpr (span : Span) (target value : Expr)
  | binOp (span : Span) (left : Expr) (operator : BinaryOperator) (right : Expr)
  | unaryOp (span : Span) (operator : UnaryOperator) (operand : Expr)
  | lambda (span : Span) (signature : List (Formal Expr)) (body : Expr)
  | ifExp (span : Span) (test body orelse : Expr)
  | dict (span : Span) (items : List (DictItem Expr))
  | set (span : Span) (elements : List Expr)
  | comprehension (span : Span) (kind : ComprehensionKind) (element : Expr)
      (generators : List (Generator Expr))
  | dictComp (span : Span) (key value : Expr) (generators : List (Generator Expr))
  | await (span : Span) (value : Expr)
  | yield (span : Span) (value : Option Expr)
  | yieldFrom (span : Span) (value : Expr)
  | compare (span : Span) (left : Expr) (comparators : List Expr)
  | call (span : Span) (callee : Expr) (arguments keywords : List Expr)
  | formattedValue (span : Span) (value : Expr) (spec : Option Expr)
  | joinedStr (span : Span) (values : List Expr)
  | constant (span : Span) (literal : Literal)
  | attribute (span : Span) (value : Expr) (name : String) (context : Context)
  | subscript (span : Span) (value index : Expr) (context : Context)
  | starred (span : Span) (value : Expr) (context : Context)
  | name (span : Span) (id : String) (context : Context)
  | sequence (span : Span) (kind : SequenceKind) (elements : List Expr)
      (context : Context)
  | slice (span : Span) (lower upper step : Option Expr)
  deriving Inhabited

/-- The two statements that run a block while or if a test holds. -/
inductive BranchKind where
  | whileLoop
  | ifThen
  deriving Repr, DecidableEq, Inhabited

/-- Statements without parts that data can flow through. -/
inductive SimpleStatement where
  | typeAlias
  | importModules
  | importNames
  | globalNames
  | nonlocalNames
  | pass
  | breakLoop
  | continueLoop
  deriving Repr, DecidableEq, Inhabited

/-- A context manager and the target it is bound to. -/
structure WithItem where
  context : Expr
  target : Option Expr

/-- A block behind an optional expression: an exception handler with the type it
catches, or a case with its guard. -/
structure Clause (σ : Type) where
  head : Option Expr
  body : List σ

/-- Statements. -/
inductive Stmt where
  | functionDef (span : Span) (isAsync : Bool) (name : String)
      (signature : List (Formal Expr)) (returns : Option Expr) (decorators : List Expr)
      (body : List Stmt)
  | classDef (span : Span) (name : String) (bases keywords decorators : List Expr)
      (body : List Stmt)
  | return (span : Span) (value : Option Expr)
  | delete (span : Span) (targets : List Expr)
  | assign (span : Span) (targets : List Expr) (value : Expr)
  | augAssign (span : Span) (target : Expr) (operator : BinaryOperator) (value : Expr)
  | annAssign (span : Span) (target hint : Expr) (value : Option Expr)
  | forLoop (span : Span) (isAsync : Bool) (target source : Expr)
      (body orelse : List Stmt)
  | branch (span : Span) (kind : BranchKind) (test : Expr) (body orelse : List Stmt)
  | withBlock (span : Span) (isAsync : Bool) (items : List WithItem) (body : List Stmt)
  | matchBlock (span : Span) (subject : Expr) (cases : List (Clause Stmt))
  | raise (span : Span) (exception cause : Option Expr)
  | tryBlock (span : Span) (isStar : Bool) (body : List Stmt)
      (handlers : List (Clause Stmt)) (orelse finalbody : List Stmt)
  | assert (span : Span) (test : Expr) (message : Option Expr)
  | expr (span : Span) (value : Expr)
  | simple (span : Span) (statement : SimpleStatement)
  deriving Inhabited

/-- The statements of a module or of a block. -/
abbrev Suite := List Stmt

/-- The bytes an expression covers. -/
def Expr.span : Expr → Span
  | .boolOp span .. | .namedExpr span .. | .binOp span .. | .unaryOp span ..
  | .lambda span .. | .ifExp span .. | .dict span .. | .set span ..
  | .comprehension span .. | .dictComp span .. | .await span .. | .yield span ..
  | .yieldFrom span .. | .compare span .. | .call span .. | .formattedValue span ..
  | .joinedStr span .. | .constant span .. | .attribute span .. | .subscript span ..
  | .starred span .. | .name span .. | .sequence span .. | .slice span .. => span

/-- The bytes a statement covers. -/
def Stmt.span : Stmt → Span
  | .functionDef span .. | .classDef span .. | .return span .. | .delete span ..
  | .assign span .. | .augAssign span .. | .annAssign span .. | .forLoop span ..
  | .branch span .. | .withBlock span .. | .matchBlock span .. | .raise span ..
  | .tryBlock span .. | .assert span .. | .expr span .. | .simple span .. => span

end TypeTrace.Syntax
