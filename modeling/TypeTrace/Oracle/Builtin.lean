import TypeTrace.Oracle.Basic

/-!
# The builtin oracle

Types of literals, displays, operators, calls of builtin functions, methods of strings
and bytes, and calls of the classes a unit defines.  Names, attributes and subscripts
have no type here: following them is not the oracle's work.
-/

namespace TypeTrace.Builtin

open TypeTrace.Syntax TypeTrace.Types

/-- The type of a literal. -/
def literalType : Literal → String
  | .none => "None"
  | .bool => "bool"
  | .str => "str"
  | .bytes => "bytes"
  | .int => "int"
  | .float => "float"
  | .complex => "complex"
  | .tuple => "tuple"
  | .ellipsis => "ellipsis"

/-- What builtin functions return. -/
def functionTypes : List (String × String) :=
  [("len", "int"), ("int", "int"), ("hash", "int"), ("ord", "int"), ("id", "int"),
    ("round", "int"), ("float", "float"), ("complex", "complex"), ("str", "str"),
    ("repr", "str"), ("chr", "str"), ("input", "str"), ("format", "str"), ("hex", "str"),
    ("bin", "str"), ("oct", "str"), ("ascii", "str"), ("bool", "bool"),
    ("isinstance", "bool"), ("issubclass", "bool"), ("callable", "bool"),
    ("hasattr", "bool"), ("all", "bool"), ("any", "bool"), ("bytes", "bytes"),
    ("bytearray", "bytearray"), ("list", "list"), ("sorted", "list"), ("dict", "dict"),
    ("set", "set"), ("frozenset", "frozenset"), ("tuple", "tuple"), ("range", "range"),
    ("enumerate", "enumerate"), ("zip", "zip"), ("open", "TextIOWrapper"),
    ("object", "object"), ("type", "type"), ("print", "None"), ("exec", "None")]

/-- Builtin functions that return one of their arguments. -/
def selectors : List String := ["abs", "min", "max"]

/-- What the methods of strings return. -/
def stringMethods : List (String × String) :=
  [("upper", "str"), ("lower", "str"), ("strip", "str"), ("lstrip", "str"),
    ("rstrip", "str"), ("replace", "str"), ("format", "str"), ("join", "str"),
    ("title", "str"), ("capitalize", "str"), ("casefold", "str"), ("center", "str"),
    ("ljust", "str"), ("rjust", "str"), ("zfill", "str"), ("swapcase", "str"),
    ("split", "list[str]"), ("rsplit", "list[str]"), ("splitlines", "list[str]"),
    ("startswith", "bool"), ("endswith", "bool"), ("isdigit", "bool"),
    ("isalpha", "bool"), ("isalnum", "bool"), ("isspace", "bool"), ("isupper", "bool"),
    ("islower", "bool"), ("find", "int"), ("rfind", "int"), ("index", "int"),
    ("rindex", "int"), ("count", "int"), ("encode", "bytes")]

/-- What the methods of bytes return. -/
def bytesMethods : List (String × String) := [("decode", "str")]

/-- What a method of a type returns. -/
def methodType? (receiver method : String) : Option String :=
  if receiver = "str" then
    stringMethods.lookup method
  else if receiver = "bytes" then
    bytesMethods.lookup method
  else
    none

/-- The types that numbers have. -/
def isNumeric (name : String) : Bool :=
  name == "int" || name == "bool" || name == "float"

/-- The type of arithmetic on two numbers: a float makes a float. -/
def numericType? (left right : String) : Option String :=
  if isNumeric left && isNumeric right then
    some (if left == "float" || right == "float" then "float" else "int")
  else
    none

/-- Whether a type's name begins like that of a list. -/
def isListLike (name : String) : Bool :=
  "list".toList.isPrefixOf name.toList

/-- The type of an operation on operands of two known types. -/
def operationType? (operator : BinaryOperator) (left right : String) : Option String :=
  match operator with
  | .div => some "float"
  | .add =>
      if (left == right && (left == "str" || left == "bytes")) ||
          (isListLike left && isListLike right) then
        some left
      else
        numericType? left right
  | .mult =>
      if (left == "str" && right == "int") || (left == "int" && right == "str") then
        some "str"
      else
        numericType? left right
  | .mod => if left == "str" then some "str" else numericType? left right
  | .sub => numericType? left right
  | .pow => numericType? left right
  | .floorDiv => numericType? left right
  | .bitAnd | .bitOr | .bitXor | .leftShift | .rightShift =>
      if left == right && ! isNumeric left then
        some left
      else
        (numericType? left right).map fun _ => "int"
  | .matMult => none

/-- The type of a binary operation.  A quotient is a float whatever is divided; every
other operation needs to know both operands. -/
def binaryType? (operator : BinaryOperator) (left right : Option String) : Option String :=
  match operator, left, right with
  | .div, _, _ => some "float"
  | _, some left, some right => operationType? operator left right
  | _, _, _ => none

/-- A container of elements, bare if nothing is known about them. -/
def containerType (name : String) : Option Descriptor → Descriptor
  | none => .named name
  | some element => .named (name ++ "[" ++ element.text ++ "]")

/-- A tuple of elements, each of any type if nothing is known about it. -/
def tupleType : List (Option Descriptor) → Descriptor
  | [] => .named "tuple"
  | elements =>
      let texts := elements.map fun element => (element.map Descriptor.text).getD "Any"
      .named ("tuple[" ++ ", ".intercalate texts ++ "]")

/-- A dictionary, bare unless something is known about keys and values. -/
def dictType : Option Descriptor → Option Descriptor → Descriptor
  | some key, some value => .named ("dict[" ++ key.text ++ ", " ++ value.text ++ "]")
  | _, _ => .named "dict"

/-- The keys of a dictionary display. -/
def keys (items : List (DictItem Expr)) : List Expr := items.filterMap (·.key)

/-- The values of a dictionary display. -/
def values (items : List (DictItem Expr)) : List Expr := items.map (·.value)

theorem expr_mem_children_of_mem_keys {span : Span} {items : List (DictItem Expr)}
    {key : Expr} (member : key ∈ keys items) :
    Node.expr key ∈ (Expr.dict span items).children := by
  obtain ⟨item, itemMember, equal⟩ := List.mem_filterMap.mp member
  simp only [Expr.children, Node.ofDictItems, List.mem_flatMap]
  exact ⟨item, itemMember, by simp [equal, Node.ofExpr?]⟩

theorem expr_mem_children_of_mem_values {span : Span} {items : List (DictItem Expr)}
    {value : Expr} (member : value ∈ values items) :
    Node.expr value ∈ (Expr.dict span items).children := by
  obtain ⟨item, itemMember, equal⟩ := List.mem_map.mp member
  simp only [Expr.children, Node.ofDictItems, List.mem_flatMap]
  exact ⟨item, itemMember, by simp [equal]⟩

theorem sizeOf_lt_of_expr_mem_children {part whole : Expr}
    (member : Node.expr part ∈ whole.children) : sizeOf part < sizeOf whole :=
  @Node.size_lt_of_mem_children (.expr whole) _ member

/-- The type of an expression, where `isClass` tells the classes at hand. -/
def infer (isClass : String → Bool) (expression : Expr) : Option Descriptor :=
  match expression with
  | .constant _ literal => some (.named (literalType literal))
  | .joinedStr .. => some (.named "str")
  | .sequence _ .list elements _ =>
      some (containerType "list"
        (Descriptor.join (elements.attach.filterMap fun ⟨part, _⟩ => infer isClass part)))
  | .set _ elements =>
      some (containerType "set"
        (Descriptor.join (elements.attach.filterMap fun ⟨part, _⟩ => infer isClass part)))
  | .sequence _ .tuple elements _ =>
      some (tupleType (elements.attach.map fun ⟨part, _⟩ => infer isClass part))
  | .dict _ items =>
      some (dictType
        (Descriptor.join ((keys items).attach.filterMap fun ⟨key, _⟩ => infer isClass key))
        (Descriptor.join
          ((values items).attach.filterMap fun ⟨value, _⟩ => infer isClass value)))
  | .comprehension _ .list .. => some (.named "list")
  | .comprehension _ .set .. => some (.named "set")
  | .comprehension _ .generator .. => some (.named "Generator")
  | .dictComp .. => some (.named "dict")
  | .lambda .. => some (.named "Callable")
  | .compare .. => some (.named "bool")
  | .unaryOp _ .not _ => some (.named "bool")
  | .unaryOp _ .invert _ => some (.named "int")
  | .unaryOp _ .plus operand => infer isClass operand
  | .unaryOp _ .minus operand => infer isClass operand
  | .binOp _ left operator right =>
      (binaryType? operator ((infer isClass left).bind Descriptor.simpleName?)
        ((infer isClass right).bind Descriptor.simpleName?)).map .named
  | .boolOp _ _ values =>
      Descriptor.join (values.attach.filterMap fun ⟨part, _⟩ => infer isClass part)
  | .ifExp _ _ body orelse =>
      Descriptor.join ([infer isClass body, infer isClass orelse].filterMap id)
  | .call _ (.name _ id _) arguments _ =>
      if isClass id then
        some (.named id)
      else if id ∈ selectors then
        match arguments with
        | [] => none
        | argument :: _ => infer isClass argument
      else
        (functionTypes.lookup id).map .named
  | .call _ (.attribute _ receiver method _) _ _ =>
      ((infer isClass receiver).bind Descriptor.simpleName?).bind fun name =>
        (methodType? name method).map .named
  | _ => none
termination_by sizeOf expression
decreasing_by
  all_goals first
    | exact sizeOf_lt_of_expr_mem_children (expr_mem_children_of_mem_keys ‹_›)
    | exact sizeOf_lt_of_expr_mem_children (expr_mem_children_of_mem_values ‹_›)
    | decreasing_tactic

/-- The oracle of literals, operators, builtins and the unit's own classes. -/
def oracle : Oracle :=
  fun unit expression => infer unit.definesClass expression

end TypeTrace.Builtin
