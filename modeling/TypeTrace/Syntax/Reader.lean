import TypeTrace.Format.Json
import TypeTrace.Syntax.Tree

/-!
# Syntax trees from JSON

Parsers hand over syntax trees as nested arrays: a node is
`[kind, start, stop, field, …]` with the fields in the order of Python's own syntax
trees, `null` for what is missing, and lists for what may be repeated.  `suite?` reads
the statements of a module.

Every node lies deeper in the document than the node it belongs to, so the depth of the
document bounds the recursion.
-/

namespace TypeTrace

mutual

/-- How deep a document is nested. -/
def Json.depth : Json → Nat
  | .array items => Json.depths items + 1
  | .object fields => Json.fieldDepths fields + 1
  | _ => 1

/-- How deep the deepest of some documents is nested. -/
def Json.depths : List Json → Nat
  | [] => 0
  | item :: rest => max (Json.depth item) (Json.depths rest)

/-- How deep the deepest of some fields is nested. -/
def Json.fieldDepths : List (String × Json) → Nat
  | [] => 0
  | (_, value) :: rest => max (Json.depth value) (Json.fieldDepths rest)

end

namespace Syntax.Reader

/-- A text. -/
def text? : Json → Option String
  | .string value => some value
  | _ => none

/-- An offset. -/
def offset? : Json → Option Nat
  | .number value => if 0 ≤ value then some value.toNat else none
  | _ => none

/-- Something that may be missing. -/
def optional? {α : Type} (read : Json → Option α) : Json → Option (Option α)
  | .null => some none
  | json => (read json).map some

/-- A list. -/
def list? {α : Type} (read : Json → Option α) : Json → Option (List α)
  | .array items => items.mapM read
  | _ => none

/-- A word that stands for a value. -/
def word? {α : Type} (words : List (String × α)) (json : Json) : Option α :=
  (text? json).bind (List.lookup · words)

/-- A node before its fields are read. -/
structure RawNode where
  kind : String
  span : Span
  fields : List Json

/-- The kind, span and fields of a node. -/
def rawNode? : Json → Option RawNode
  | .array (kind :: start :: stop :: fields) => do
      return ⟨← text? kind, ⟨← offset? start, ← offset? stop⟩, fields⟩
  | _ => none

/-- A field by its position, `null` if it is missing. -/
def RawNode.field (node : RawNode) (index : Nat) : Json :=
  node.fields[index]?.getD .null

/-- The words for contexts. -/
def contexts : List (String × Context) :=
  [("Load", .load), ("Store", .store), ("Del", .delete)]

/-- The words for connectives. -/
def boolOperators : List (String × BoolOperator) := [("And", .and), ("Or", .or)]

/-- The words for binary operators. -/
def binaryOperators : List (String × BinaryOperator) :=
  [("Add", .add), ("Sub", .sub), ("Mult", .mult), ("MatMult", .matMult), ("Div", .div),
    ("Mod", .mod), ("Pow", .pow), ("LShift", .leftShift), ("RShift", .rightShift),
    ("BitOr", .bitOr), ("BitXor", .bitXor), ("BitAnd", .bitAnd), ("FloorDiv", .floorDiv)]

/-- The words for unary operators. -/
def unaryOperators : List (String × UnaryOperator) :=
  [("Invert", .invert), ("Not", .not), ("UAdd", .plus), ("USub", .minus)]

/-- The words for kinds of literals. -/
def literals : List (String × Literal) :=
  [("None", .none), ("Bool", .bool), ("Str", .str), ("Bytes", .bytes), ("Int", .int),
    ("Tuple", .tuple), ("Float", .float), ("Complex", .complex), ("Ellipsis", .ellipsis)]

/-- The words for statements without parts. -/
def simpleStatements : List (String × SimpleStatement) :=
  [("TypeAlias", .typeAlias), ("Import", .importModules), ("ImportFrom", .importNames),
    ("Global", .globalNames), ("Nonlocal", .nonlocalNames), ("Pass", .pass),
    ("Break", .breakLoop), ("Continue", .continueLoop)]

section Parts

variable (expr? : Json → Option Expr)

/-- A parameter of a kind. -/
def parameter? (kind : ParameterKind) (json : Json) : Option (Parameter Expr) := do
  let node ← rawNode? json
  return ⟨node.span, kind, ← text? (node.field 0), ← optional? expr? (node.field 1)⟩

/-- A parameter with its default. -/
def formal? (kind : ParameterKind) : Json → Option (Formal Expr)
  | .array [parameter, default] => do
      return ⟨← parameter? expr? kind parameter, ← optional? expr? default⟩
  | _ => none

/-- A parameter that takes any number of arguments, if there is one. -/
def variadic? (kind : ParameterKind) (json : Json) : Option (List (Formal Expr)) := do
  let parameter ← optional? (parameter? expr? kind) json
  return (parameter.map fun parameter => ⟨parameter, none⟩).toList

/-- A signature, put in declaration order. -/
def signature? : Json → Option (List (Formal Expr))
  | .array [positionalOnly, positional, variadic, keywordOnly, keywords] => do
      let positionalOnly ← list? (formal? expr? .positionalOnly) positionalOnly
      let positional ← list? (formal? expr? .positional) positional
      let variadic ← variadic? expr? .variadic variadic
      let keywordOnly ← list? (formal? expr? .keywordOnly) keywordOnly
      let keywords ← variadic? expr? .keywords keywords
      return positionalOnly ++ positional ++ variadic ++ keywordOnly ++ keywords
  | _ => none

/-- The value of a keyword argument. -/
def keyword? : Json → Option Expr
  | .array [_, value] => expr? value
  | _ => none

/-- A generator of a comprehension. -/
def generator? : Json → Option (Generator Expr)
  | .array [target, source, conditions] => do
      return ⟨← expr? target, ← expr? source, ← list? expr? conditions⟩
  | _ => none

/-- The items of a dictionary display, from its keys and its values. -/
def dictItems? (keys values : Json) : Option (List (DictItem Expr)) := do
  let keys ← list? (optional? expr?) keys
  let values ← list? expr? values
  return keys.zipWith (fun key value => ⟨key, value⟩) values

/-- A context manager with its target. -/
def withItem? : Json → Option WithItem
  | .array [context, target] => do
      return ⟨← expr? context, ← optional? expr? target⟩
  | _ => none

/-- A handler or a case. -/
def clause? (stmt? : Json → Option Stmt) : Json → Option (Clause Stmt)
  | .array [head, body] => do
      return ⟨← optional? expr? head, ← list? stmt? body⟩
  | _ => none

end Parts

/-- An expression that is nested at most `bound` deep. -/
def expr? : (bound : Nat) → Json → Option Expr
  | 0, _ => none
  | bound + 1, json => do
      let node ← rawNode? json
      let one := fun index => expr? bound (node.field index)
      let some? := fun index => optional? (expr? bound) (node.field index)
      let many := fun index => list? (expr? bound) (node.field index)
      let context := fun index => word? contexts (node.field index)
      let generators := fun index => list? (generator? (expr? bound)) (node.field index)
      match node.kind with
      | "BoolOp" => return .boolOp node.span (← word? boolOperators (node.field 0)) (← many 1)
      | "NamedExpr" => return .namedExpr node.span (← one 0) (← one 1)
      | "BinOp" =>
          return .binOp node.span (← one 0) (← word? binaryOperators (node.field 1)) (← one 2)
      | "UnaryOp" =>
          return .unaryOp node.span (← word? unaryOperators (node.field 0)) (← one 1)
      | "Lambda" =>
          return .lambda node.span (← signature? (expr? bound) (node.field 0)) (← one 1)
      | "IfExp" => return .ifExp node.span (← one 0) (← one 1) (← one 2)
      | "Dict" =>
          return .dict node.span (← dictItems? (expr? bound) (node.field 0) (node.field 1))
      | "Set" => return .set node.span (← many 0)
      | "ListComp" => return .comprehension node.span .list (← one 0) (← generators 1)
      | "SetComp" => return .comprehension node.span .set (← one 0) (← generators 1)
      | "GeneratorExp" =>
          return .comprehension node.span .generator (← one 0) (← generators 1)
      | "DictComp" => return .dictComp node.span (← one 0) (← one 1) (← generators 2)
      | "Await" => return .await node.span (← one 0)
      | "Yield" => return .yield node.span (← some? 0)
      | "YieldFrom" => return .yieldFrom node.span (← one 0)
      | "Compare" => return .compare node.span (← one 0) (← many 1)
      | "Call" =>
          return .call node.span (← one 0) (← many 1)
            (← list? (keyword? (expr? bound)) (node.field 2))
      | "FormattedValue" => return .formattedValue node.span (← one 0) (← some? 1)
      | "JoinedStr" => return .joinedStr node.span (← many 0)
      | "Constant" => return .constant node.span (← word? literals (node.field 0))
      | "Attribute" =>
          return .attribute node.span (← one 0) (← text? (node.field 1)) (← context 2)
      | "Subscript" => return .subscript node.span (← one 0) (← one 1) (← context 2)
      | "Starred" => return .starred node.span (← one 0) (← context 1)
      | "Name" => return .name node.span (← text? (node.field 0)) (← context 1)
      | "List" => return .sequence node.span .list (← many 0) (← context 1)
      | "Tuple" => return .sequence node.span .tuple (← many 0) (← context 1)
      | "Slice" => return .slice node.span (← some? 0) (← some? 1) (← some? 2)
      | _ => none

/-- A statement that is nested at most `bound` deep. -/
def stmt? : (bound : Nat) → Json → Option Stmt
  | 0, _ => none
  | bound + 1, json => do
      let node ← rawNode? json
      let one := fun index => expr? bound (node.field index)
      let some? := fun index => optional? (expr? bound) (node.field index)
      let many := fun index => list? (expr? bound) (node.field index)
      let block := fun index => list? (stmt? bound) (node.field index)
      let clauses := fun index => list? (clause? (expr? bound) (stmt? bound)) (node.field index)
      let function := fun isAsync => do
        return Stmt.functionDef node.span isAsync (← text? (node.field 0))
          (← signature? (expr? bound) (node.field 1)) (← some? 2) (← many 3) (← block 4)
      let loop := fun isAsync => do
        return Stmt.forLoop node.span isAsync (← one 0) (← one 1) (← block 2) (← block 3)
      let withBlock := fun isAsync => do
        return Stmt.withBlock node.span isAsync
          (← list? (withItem? (expr? bound)) (node.field 0)) (← block 1)
      let tryBlock := fun isStar => do
        return Stmt.tryBlock node.span isStar (← block 0) (← clauses 1) (← block 2) (← block 3)
      match node.kind with
      | "FunctionDef" => function false
      | "AsyncFunctionDef" => function true
      | "ClassDef" =>
          return .classDef node.span (← text? (node.field 0)) (← many 1)
            (← list? (keyword? (expr? bound)) (node.field 2)) (← many 3) (← block 4)
      | "Return" => return .return node.span (← some? 0)
      | "Delete" => return .delete node.span (← many 0)
      | "Assign" => return .assign node.span (← many 0) (← one 1)
      | "AugAssign" =>
          return .augAssign node.span (← one 0) (← word? binaryOperators (node.field 1))
            (← one 2)
      | "AnnAssign" => return .annAssign node.span (← one 0) (← one 1) (← some? 2)
      | "For" => loop false
      | "AsyncFor" => loop true
      | "While" => return .branch node.span .whileLoop (← one 0) (← block 1) (← block 2)
      | "If" => return .branch node.span .ifThen (← one 0) (← block 1) (← block 2)
      | "With" => withBlock false
      | "AsyncWith" => withBlock true
      | "Match" => return .matchBlock node.span (← one 0) (← clauses 1)
      | "Raise" => return .raise node.span (← some? 0) (← some? 1)
      | "Try" => tryBlock false
      | "TryStar" => tryBlock true
      | "Assert" => return .assert node.span (← one 0) (← some? 1)
      | "Expr" => return .expr node.span (← one 0)
      | kind => return .simple node.span (← simpleStatements.lookup kind)

end Syntax.Reader

/-- The statements of a module. -/
def Syntax.suite? (json : Json) : Option Syntax.Suite :=
  Syntax.Reader.list? (Syntax.Reader.stmt? json.depth) json

end TypeTrace
