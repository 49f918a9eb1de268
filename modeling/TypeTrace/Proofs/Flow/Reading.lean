import TypeTrace.Proofs.Flow.Anchor
import TypeTrace.Proofs.Syntax.Sight

/-!
# Where a parameter is read

A name that reads a parameter is looked up on the path to it, from the inside out: the first
node that is a function, or a lambda that declares the name, decides.  That node owns the
parameter, and the name stands somewhere below it.

Below a function or a lambda are its header and its body.  A parameter is to be seen in the
body only, but the look-up does not tell the two apart.  Which of them the name stands in is
told by the offset: a header comes first, so it is entered whenever a part of it covers the
offset (`ReadBelow.inBody_iff`).
-/

namespace TypeTrace

namespace Syntax.Node

/-- The signature of a function or lambda. -/
def signature? : Node → Option (List (Formal Expr))
  | .stmt (.functionDef _ _ _ signature _ _ _) => some signature
  | .expr (.lambda _ signature _) => some signature
  | _ => none

/-- What a function or lambda evaluates in the scope around it: decorators, parameters with
their hints, defaults, and the hint of what is returned. -/
def header : Node → List Node
  | .stmt (.functionDef _ _ _ signature returns decorators _) =>
      ofExprs decorators ++ ofSignature signature ++ ofExpr? returns
  | .expr (.lambda _ signature _) => ofSignature signature
  | _ => []

/-- Where the parameters of a function or lambda are seen. -/
def body : Node → List Node
  | .stmt (.functionDef _ _ _ _ _ _ body) => ofSuite body
  | .expr (.lambda _ _ body) => [.expr body]
  | _ => []

theorem children_eq_header_append_body {node : Node} (owns : node.signature? ≠ none) :
    node.children = node.header ++ node.body := by
  unfold signature? at owns
  split at owns
  next => rfl
  next => rfl
  next => exact absurd rfl owns

theorem signature?_of_function?_none {definition : Stmt}
    (noFunction : definition.function? = none) :
    (Node.stmt definition).signature? = none := by
  cases definition with
  | functionDef => cases noFunction
  | _ => rfl

theorem exists_lambda_of_signature? {expression : Expr} {signature : List (Formal Expr)}
    (owns : (Node.expr expression).signature? = some signature) :
    ∃ span body, expression = .lambda span signature body := by
  cases expression with
  | lambda span declared body =>
      cases owns
      exact ⟨span, body, rfl⟩
  | _ => cases owns

/-- A default stands in the header of its function or lambda. -/
theorem default_mem_header {node : Node} {signature : List (Formal Expr)} {formal : Formal Expr}
    {value : Expr} (owns : node.signature? = some signature) (declared : formal ∈ signature)
    (isDefault : formal.default = some value) : .expr value ∈ node.header := by
  have inSignature : .expr value ∈ ofSignature signature := by
    unfold ofSignature
    refine List.mem_flatMap.mpr ⟨formal, declared, ?_⟩
    simp [isDefault, ofExpr?]
  unfold signature? at owns
  split at owns
  next =>
    cases owns
    exact List.mem_append_left _ (List.mem_append_right _ inSignature)
  next =>
    cases owns
    exact inSignature
  next => cases owns

end Syntax.Node

namespace Flow

open Syntax

/-! ## Looking a name up -/

/-- A node that the look-up of a name goes past: no function, and no lambda that declares the
name. -/
structure Passes (name : String) (node : Node) : Prop where
  noFunction : node.function? = none
  undeclared : ∀ signature, node.signature? = some signature →
    ∀ formal ∈ signature, formal.parameter.name ≠ name

/-- What a name means by the node that the look-up stops at. -/
inductive Binds (name : String) : Node → Element → Prop where
  | function {definition : Stmt} {function : Function} {parameter : Parameter Expr}
      (defines : definition.function? = some function)
      (declares : function.parameter? name = some parameter) :
      Binds name (.stmt definition) (.parameterUse parameter function)
  | lambda {span : Span} {signature : List (Formal Expr)} {body : Expr}
      {parameter : Parameter Expr}
      (declares : lambdaParameter? signature name = some parameter) :
      Binds name (.expr (.lambda span signature body)) (.parameter parameter none)

variable {name : String} {node : Node} {outer : List Node} {element : Element}

theorem lambdaParameter?_eq_none_iff {signature : List (Formal Expr)} :
    lambdaParameter? signature name = none ↔
      ∀ formal ∈ signature, formal.parameter.name ≠ name := by
  unfold lambdaParameter?
  rw [List.find?_eq_none]
  constructor
  · intro missing formal member
    have isOrdered : formal.parameter ∈
        (signature.map (·.parameter)).filter (! isVariadic ·) ++
          (signature.map (·.parameter)).filter isVariadic := by
      have declared := List.mem_map_of_mem (f := (·.parameter)) member
      rw [List.mem_append, List.mem_filter, List.mem_filter]
      cases isVariadic formal.parameter <;> simp [declared]
    simpa using missing _ isOrdered
  · intro missing parameter member
    have declared : parameter ∈ signature.map (·.parameter) := by
      rw [List.mem_append, List.mem_filter, List.mem_filter] at member
      exact member.elim And.left And.left
    obtain ⟨formal, isFormal, rfl⟩ := List.mem_map.mp declared
    simpa using missing formal isFormal

theorem name_of_lambdaParameter? {signature : List (Formal Expr)} {parameter : Parameter Expr}
    (declares : lambdaParameter? signature name = some parameter) : parameter.name = name := by
  unfold lambdaParameter? at declares
  simpa using List.find?_some declares

theorem name_of_parameter? {function : Function} {parameter : Parameter Expr}
    (declares : function.parameter? name = some parameter) : parameter.name = name := by
  unfold Function.parameter? at declares
  simpa using List.find?_some declares

/-- A node is passed, or it is a function, or it is a lambda that declares the name. -/
theorem passes_or_stops (name : String) (node : Node) :
    Passes name node ∨
    (∃ definition function, node = .stmt definition ∧ definition.function? = some function) ∨
    ∃ span signature body parameter, node = .expr (.lambda span signature body) ∧
      lambdaParameter? signature name = some parameter := by
  cases node with
  | stmt definition =>
      cases defines : definition.function? with
      | some function => exact .inr (.inl ⟨definition, function, rfl, defines⟩)
      | none =>
          refine .inl ⟨defines, ?_⟩
          intro signature owns
          cases owns.symm.trans (Node.signature?_of_function?_none defines)
  | param => exact .inl ⟨rfl, fun signature owns => by cases owns⟩
  | expr expression =>
      cases owns : (Node.expr expression).signature? with
      | none => exact .inl ⟨rfl, fun signature isSignature => by cases owns.symm.trans isSignature⟩
      | some signature =>
          cases declares : lambdaParameter? signature name with
          | none =>
              refine .inl ⟨rfl, ?_⟩
              intro other isOther
              cases owns.symm.trans isOther
              exact lambdaParameter?_eq_none_iff.mp declares
          | some parameter =>
              obtain ⟨span, body, rfl⟩ := Node.exists_lambda_of_signature? owns
              exact .inr (.inr ⟨span, signature, body, parameter, rfl, declares⟩)

theorem readParameter?_of_passes (passes : Passes name node) :
    readParameter? name (node :: outer) = readParameter? name outer := by
  by_cases isLambda : ∃ span signature body, node = .expr (.lambda span signature body)
  · obtain ⟨span, signature, body, rfl⟩ := isLambda
    have missing := lambdaParameter?_eq_none_iff.mpr (passes.undeclared signature rfl)
    rw [readParameter?, missing]
  · rw [readParameter?]
    · rw [passes.noFunction]
    · intro span signature body isNode
      exact isLambda ⟨span, signature, body, isNode⟩

theorem readParameter?_of_function {definition : Stmt} {function : Function}
    (defines : definition.function? = some function) :
    readParameter? name (.stmt definition :: outer) =
      (function.parameter? name).map (.parameterUse · function) := by
  rw [readParameter?]
  · rw [Node.function?, defines]
  · intro span signature body isNode
    cases isNode

theorem readParameter?_of_lambda {span : Span} {signature : List (Formal Expr)} {body : Expr}
    {parameter : Parameter Expr}
    (declares : lambdaParameter? signature name = some parameter) :
    readParameter? name (.expr (.lambda span signature body) :: outer) =
      some (.parameter parameter none) := by
  rw [readParameter?, declares]

theorem Binds.not_passes (binds : Binds name node element) : ¬ Passes name node := by
  intro passes
  cases binds with
  | function defines => cases defines.symm.trans passes.noFunction
  | lambda declares =>
      cases declares.symm.trans
        (lambdaParameter?_eq_none_iff.mpr (passes.undeclared _ rfl))

theorem Binds.readParameter?_eq (binds : Binds name node element) :
    readParameter? name (node :: outer) = some element := by
  cases binds with
  | function defines declares => rw [readParameter?_of_function defines, declares, Option.map_some]
  | lambda declares => exact readParameter?_of_lambda declares

/-- A look-up succeeds with the first node that is not passed. -/
theorem readParameter?_eq_some_iff {nodes : List Node} :
    readParameter? name nodes = some element ↔
      ∃ inner owner outer, nodes = inner ++ owner :: outer ∧
        (∀ node ∈ inner, Passes name node) ∧ Binds name owner element := by
  constructor
  · intro read
    induction nodes with
    | nil => cases read
    | cons node rest ih =>
        rcases passes_or_stops name node with passes |
          ⟨definition, function, rfl, defines⟩ |
          ⟨span, signature, body, parameter, rfl, declares⟩
        · rw [readParameter?_of_passes passes] at read
          obtain ⟨inner, owner, outer, isRest, passed, binds⟩ := ih read
          refine ⟨node :: inner, owner, outer, by rw [isRest, List.cons_append], ?_, binds⟩
          exact List.forall_mem_cons.mpr ⟨passes, passed⟩
        · rw [readParameter?_of_function defines] at read
          obtain ⟨parameter, declares, rfl⟩ := Option.map_eq_some_iff.mp read
          exact ⟨[], _, rest, rfl, by simp, .function defines declares⟩
        · rw [readParameter?_of_lambda declares] at read
          cases read
          exact ⟨[], _, rest, rfl, by simp, .lambda declares⟩
  · rintro ⟨inner, owner, outer, rfl, passed, binds⟩
    induction inner with
    | nil => exact binds.readParameter?_eq
    | cons node rest ih =>
        rw [List.forall_mem_cons] at passed
        rw [List.cons_append, readParameter?_of_passes passed.1, ih passed.2]

/-! ## Names below their owners -/

/-- A name that is read below a node: the path from there to the name, on which nothing
stops its look-up. -/
structure ReadBelow (unit : SourceUnit) (offset : Nat) (name : String) (owner : Node)
    (below : List Node) : Prop where
  path : ∃ outer, locate unit.suite offset = outer ++ owner :: below
  isName : ∃ span, below.getLast? = some (.expr (.name span name .load))
  passed : ∀ node ∈ below, Passes name node

/-- A path that enters the body of a function or lambda, and not its header. -/
def InBody (owner : Node) (below : List Node) : Prop :=
  ∃ part ∈ owner.body, part ∉ owner.header ∧ below.head? = some part

/-- A path that enters the header of a function or lambda. -/
def InHeader (owner : Node) (below : List Node) : Prop :=
  ∃ part ∈ owner.header, below.head? = some part

/-- An offset that points at a name. -/
def PointsAtName (unit : SourceUnit) (offset : Nat) : Prop :=
  ∃ span id context, (locate unit.suite offset).getLast? = some (.expr (.name span id context))

variable {unit : SourceUnit} {offset : Nat} {owner : Node} {below : List Node}

theorem passes_name (span : Span) (name : String) (context : Context) :
    Passes name (.expr (.name span name context)) :=
  ⟨rfl, fun signature owns => by cases owns⟩

theorem getLast?_append_cons (outer : List Node) (owner : Node) (below : List Node) :
    (outer ++ owner :: below).getLast? = some (below.getLast?.getD owner) := by
  rw [List.getLast?_append, List.getLast?_cons, Option.some_or]

/-- The names that are looked up to an element are those below a node that binds it. -/
theorem exists_readBelow_iff :
    (∃ span name, (locate unit.suite offset).getLast? = some (.expr (.name span name .load)) ∧
      readParameter? name (locate unit.suite offset).reverse = some element) ↔
      ∃ name owner below, ReadBelow unit offset name owner below ∧ Binds name owner element := by
  constructor
  · rintro ⟨span, name, isLast, read⟩
    obtain ⟨inner, owner, outer, isPath, passed, binds⟩ := readParameter?_eq_some_iff.mp read
    have isPathDown := congrArg List.reverse isPath
    rw [List.reverse_reverse, List.reverse_append, List.reverse_cons, List.append_assoc,
      List.singleton_append] at isPathDown
    refine ⟨name, owner, inner.reverse, ⟨⟨outer.reverse, isPathDown⟩, ⟨span, ?_⟩, ?_⟩, binds⟩
    · rw [isPathDown, getLast?_append_cons] at isLast
      cases ends : inner.reverse.getLast? with
      | none =>
          -- The name would be its own owner, but its look-up does not stop at the name.
          rw [ends] at isLast
          cases isLast
          exact absurd (passes_name span name .load) binds.not_passes
      | some last =>
          rw [ends] at isLast
          exact isLast
    · simpa using passed
  · rintro ⟨name, owner, below, read, binds⟩
    obtain ⟨outer, isPath⟩ := read.path
    obtain ⟨span, isLast⟩ := read.isName
    refine ⟨span, name, ?_, ?_⟩
    · rw [isPath, getLast?_append_cons, isLast, Option.getD_some]
    · rw [isPath, readParameter?_eq_some_iff]
      refine ⟨below.reverse, owner, outer.reverse, by simp, ?_, binds⟩
      simpa using read.passed

theorem classify_eq_ok_iff (noVariable : ∀ expression text, element ≠ .variable expression text) :
    classify unit offset = .ok element ∧ PointsAtName unit offset ↔
      ∃ span name, (locate unit.suite offset).getLast? = some (.expr (.name span name .load)) ∧
        readParameter? name (locate unit.suite offset).reverse = some element := by
  constructor
  · rintro ⟨classified, span, id, context, isLast⟩
    simp only [classify, isLast, Expr.isVariable, ↓reduceIte, Except.ok.injEq] at classified
    cases read : parameterRead? (locate unit.suite offset) (.name span id context) with
    | none =>
        rw [read] at classified
        exact absurd classified.symm (noVariable _ _)
    | some found =>
        rw [read] at classified
        cases classified
        cases context with
        | load => exact ⟨span, id, isLast, read⟩
        | store => cases read
        | delete => cases read
  · rintro ⟨span, name, isLast, read⟩
    refine ⟨?_, span, name, .load, isLast⟩
    simp [classify, isLast, Expr.isVariable, parameterRead?, read]

theorem pointsAtName_of_parameterUse {parameter : Parameter Expr} {function : Function}
    (classified : classify unit offset = .ok (.parameterUse parameter function)) :
    PointsAtName unit offset := by
  simp only [classify] at classified
  split at classified
  next => cases classified
  next => cases classified
  next expression isLast =>
    split at classified
    next =>
      have isElement := Except.ok.inj classified
      unfold parameterRead? at isElement
      split at isElement
      next span id _ => exact ⟨span, id, .load, isLast⟩
      next => cases isElement
    next => cases classified
  next => cases classified

theorem head?_descend (offset : Nat) (nodes : List Node) :
    (descend offset nodes).head? = nodes.find? (·.covers offset) := by
  cases found : nodes.find? (·.covers offset) with
  | none => rw [descend_of_find?_none found, List.head?_nil]
  | some node => rw [descend_of_find?_some found, List.head?_cons]

theorem eq_descend_of_cons {nodes : List Node} (isPath : descend offset nodes = owner :: below) :
    below = descend offset owner.children := by
  cases found : nodes.find? (·.covers offset) with
  | none => cases (descend_of_find?_none found).symm.trans isPath
  | some node =>
      cases (descend_of_find?_some found).symm.trans isPath
      rfl

/-- A descent goes on from each node on its way. -/
theorem eq_descend_of_append {nodes : List Node}
    (isPath : descend offset nodes = outer ++ owner :: below) :
    below = descend offset owner.children := by
  induction outer generalizing nodes with
  | nil => exact eq_descend_of_cons isPath
  | cons first rest ih => exact ih (eq_descend_of_cons isPath).symm

namespace ReadBelow

theorem head?_eq (read : ReadBelow unit offset name owner below) :
    below.head? = owner.children.find? (·.covers offset) := by
  obtain ⟨outer, isPath⟩ := read.path
  unfold locate at isPath
  split at isPath
  next => rw [eq_descend_of_append isPath, head?_descend]
  next => simp at isPath

theorem head?_eq_or (read : ReadBelow unit offset name owner below)
    (owns : owner.signature? ≠ none) :
    below.head? =
      (owner.header.find? (·.covers offset)).or (owner.body.find? (·.covers offset)) := by
  rw [read.head?_eq, Node.children_eq_header_append_body owns, List.find?_append]

/-- A path enters the header when some part of it covers the offset, and else the body. -/
theorem inHeader_or_inBody (read : ReadBelow unit offset name owner below)
    (owns : owner.signature? ≠ none) :
    ((∃ node ∈ owner.header, node.covers offset = true) ∧ InHeader owner below) ∨
      ((∀ node ∈ owner.header, node.covers offset = false) ∧ InBody owner below) := by
  have enters := read.head?_eq_or owns
  cases inHeader : owner.header.find? (·.covers offset) with
  | some part =>
      rw [inHeader, Option.some_or] at enters
      have isPart := List.mem_of_find?_eq_some inHeader
      have covers : part.covers offset = true := by simpa using List.find?_some inHeader
      exact .inl ⟨⟨part, isPart, covers⟩, part, isPart, enters⟩
  | none =>
      rw [inHeader, Option.none_or] at enters
      have uncovered : ∀ node ∈ owner.header, node.covers offset = false := by
        simpa using inHeader
      obtain ⟨span, isLast⟩ := read.isName
      cases inBody : owner.body.find? (·.covers offset) with
      | none =>
          rw [inBody, List.head?_eq_none_iff] at enters
          cases enters ▸ isLast
      | some part =>
          rw [inBody] at enters
          have covers : part.covers offset = true := by simpa using List.find?_some inBody
          refine .inr ⟨uncovered, part, List.mem_of_find?_eq_some inBody, ?_, enters⟩
          intro isPart
          cases covers.symm.trans (uncovered part isPart)

theorem owner_mem (read : ReadBelow unit offset name owner below) :
    owner ∈ locate unit.suite offset := by
  obtain ⟨outer, isPath⟩ := read.path
  rw [isPath]
  exact List.mem_append_right _ List.mem_cons_self

theorem inBody_iff (read : ReadBelow unit offset name owner below)
    (owns : owner.signature? ≠ none) :
    InBody owner below ↔ ∀ node ∈ owner.header, node.covers offset = false := by
  rcases read.inHeader_or_inBody owns with
    ⟨⟨node, isPart, covers⟩, part, inHeader, enters⟩ | ⟨uncovered, inBody⟩
  · constructor
    · rintro ⟨other, _, notInHeader, isOther⟩
      cases enters.symm.trans isOther
      exact absurd inHeader notInHeader
    · intro uncovered
      cases covers.symm.trans (uncovered node isPart)
  · exact iff_of_true inBody uncovered

theorem inHeader_iff (read : ReadBelow unit offset name owner below)
    (owns : owner.signature? ≠ none) :
    InHeader owner below ↔ ∃ node ∈ owner.header, node.covers offset = true := by
  rcases read.inHeader_or_inBody owns with
    ⟨covered, inHeader⟩ | ⟨uncovered, part, _, notInHeader, enters⟩
  · exact iff_of_true inHeader covered
  · constructor
    · rintro ⟨other, isOther, entersOther⟩
      cases enters.symm.trans entersOther
      exact absurd isOther notInHeader
    · rintro ⟨node, isPart, covers⟩
      cases covers.symm.trans (uncovered node isPart)

/-- A name that is read at a default does not stand in the body. -/
theorem not_inBody_of_default {signature : List (Formal Expr)} {formal : Formal Expr}
    {value : Expr} (read : ReadBelow unit offset name owner below)
    (owns : owner.signature? = some signature) (declared : formal ∈ signature)
    (isDefault : formal.default = some value) (covers : (Node.expr value).covers offset = true) :
    ¬ InBody owner below := by
  rw [read.inBody_iff (by simp [owns])]
  intro uncovered
  cases covers.symm.trans (uncovered _ (Node.default_mem_header owns declared isDefault))

end ReadBelow

/-! ## What is classified as a read -/

theorem classify_eq_parameterUse_iff {parameter : Parameter Expr} {function : Function} :
    classify unit offset = .ok (.parameterUse parameter function) ↔
      ∃ definition below, ReadBelow unit offset parameter.name (.stmt definition) below ∧
        definition.function? = some function ∧
        function.parameter? parameter.name = some parameter := by
  have isRead : classify unit offset = .ok (.parameterUse parameter function) ∧
      PointsAtName unit offset ↔ ∃ name owner below, ReadBelow unit offset name owner below ∧
        Binds name owner (.parameterUse parameter function) := by
    rw [classify_eq_ok_iff (by simp), exists_readBelow_iff]
  constructor
  · intro classified
    obtain ⟨name, owner, below, read, binds⟩ :=
      isRead.mp ⟨classified, pointsAtName_of_parameterUse classified⟩
    cases binds with
    | function defines declares =>
        cases name_of_parameter? declares
        exact ⟨_, below, read, defines, declares⟩
  · rintro ⟨definition, below, read, defines, declares⟩
    exact (isRead.mpr ⟨_, _, below, read, .function defines declares⟩).1

theorem classify_eq_parameter_iff {parameter : Parameter Expr} {function? : Option Function} :
    classify unit offset = .ok (.parameter parameter function?) ∧ PointsAtName unit offset ↔
      function? = none ∧ ∃ span signature body below,
        ReadBelow unit offset parameter.name (.expr (.lambda span signature body)) below ∧
        lambdaParameter? signature parameter.name = some parameter := by
  rw [classify_eq_ok_iff (by simp), exists_readBelow_iff]
  constructor
  · rintro ⟨name, owner, below, read, binds⟩
    cases binds with
    | lambda declares =>
        cases name_of_lambdaParameter? declares
        exact ⟨rfl, _, _, _, below, read, declares⟩
  · rintro ⟨rfl, span, signature, body, below, read, declares⟩
    exact ⟨_, _, below, read, .lambda declares⟩

/-- A name is classified as the use of a function's parameter exactly when it is read below
the function, with no other function and no lambda of its own for the name in between, and as
a lambda's parameter exactly when it is so read below the lambda.  It stands in the body
exactly when no part of the header covers the offset. -/
theorem classify_reads_parameter (unit : SourceUnit) (offset : Nat) :
    (∀ parameter function, classify unit offset = .ok (.parameterUse parameter function) ↔
      ∃ definition below, ReadBelow unit offset parameter.name (.stmt definition) below ∧
        definition.function? = some function ∧
        function.parameter? parameter.name = some parameter) ∧
    (∀ parameter function?,
      classify unit offset = .ok (.parameter parameter function?) ∧ PointsAtName unit offset ↔
        function? = none ∧ ∃ span signature body below,
          ReadBelow unit offset parameter.name (.expr (.lambda span signature body)) below ∧
          lambdaParameter? signature parameter.name = some parameter) ∧
    ∀ name owner below, ReadBelow unit offset name owner below → owner.signature? ≠ none →
      (InBody owner below ↔ ∀ node ∈ owner.header, node.covers offset = false) ∧
      (InHeader owner below ↔ ∃ node ∈ owner.header, node.covers offset = true) := by
  refine ⟨?_, ?_, ?_⟩
  · intro parameter function
    exact classify_eq_parameterUse_iff
  · intro parameter function?
    exact classify_eq_parameter_iff
  · intro name owner below read owns
    exact ⟨read.inBody_iff owns, read.inHeader_iff owns⟩

/-! ## Defaults -/

/-- Whatever is classified as the read of a parameter stands in the body that sees it. -/
structure ReadsInBodies (unit : SourceUnit) (offset : Nat) : Prop where
  function : ∀ parameter function,
    classify unit offset = .ok (.parameterUse parameter function) →
      ∃ definition below, ReadBelow unit offset parameter.name (.stmt definition) below ∧
        definition.function? = some function ∧ InBody (.stmt definition) below
  lambda : ∀ parameter function?,
    classify unit offset = .ok (.parameter parameter function?) → PointsAtName unit offset →
      ∃ span signature body below,
        ReadBelow unit offset parameter.name (.expr (.lambda span signature body)) below ∧
        InBody (.expr (.lambda span signature body)) below

/-- A function with a default that reads a variable of its parameter's name:
```
x = 1
def f(x=x):
    pass
f('s')
``` -/
def defaultingFunction : Stmt :=
  .functionDef ⟨6, 26⟩ false "f"
    [⟨⟨⟨12, 13⟩, .positional, "x", none⟩, some (.name ⟨14, 15⟩ "x" .load)⟩] none []
    [.simple ⟨22, 26⟩ .pass]

/-- The unit with the function. -/
def functionUnit : SourceUnit where
  path := "defaulting.py"
  text := "x = 1\ndef f(x=x):\n    pass\nf('s')\n".toList
  suite := [
    .assign ⟨0, 5⟩ [.name ⟨0, 1⟩ "x" .store] (.constant ⟨4, 5⟩ .int),
    defaultingFunction,
    .expr ⟨27, 33⟩ (.call ⟨27, 33⟩ (.name ⟨27, 28⟩ "f" .load) [.constant ⟨29, 32⟩ .str] [])]

/-- A lambda with such a default:
```
v = 1
g = lambda v=v: v
``` -/
def defaultingLambda : Expr :=
  .lambda ⟨10, 23⟩ [⟨⟨⟨17, 18⟩, .positional, "v", none⟩, some (.name ⟨19, 20⟩ "v" .load)⟩]
    (.name ⟨22, 23⟩ "v" .load)

/-- The unit with the lambda. -/
def lambdaUnit : SourceUnit where
  path := "defaulting.py"
  text := "v = 1\ng = lambda v=v: v\n".toList
  suite := [
    .assign ⟨0, 5⟩ [.name ⟨0, 1⟩ "v" .store] (.constant ⟨4, 5⟩ .int),
    .assign ⟨6, 23⟩ [.name ⟨6, 7⟩ "g" .store] defaultingLambda]

/-- The name in a default is taken for the parameter that it is the default of. -/
theorem reads_outside_bodies :
    ¬ ReadsInBodies functionUnit 14 ∧ ¬ ReadsInBodies lambdaUnit 19 := by
  constructor
  · intro inBodies
    have classified : classify functionUnit 14 =
        .ok (.parameterUse ⟨⟨12, 13⟩, .positional, "x", none⟩
          ⟨⟨6, 26⟩, "f", [⟨⟨⟨12, 13⟩, .positional, "x", none⟩, some (.name ⟨14, 15⟩ "x" .load)⟩],
            none, [.simple ⟨22, 26⟩ .pass]⟩) := by cbv
    have isPath : locate functionUnit.suite 14 =
        [.stmt defaultingFunction, .expr (.name ⟨14, 15⟩ "x" .load)] := by cbv
    obtain ⟨definition, below, read, _, inBody⟩ := inBodies.function _ _ classified
    have isOwner : definition = defaultingFunction := by simpa [isPath] using read.owner_mem
    subst isOwner
    exact read.not_inBody_of_default rfl List.mem_cons_self rfl (by decide) inBody
  · intro inBodies
    have classified : classify lambdaUnit 19 =
        .ok (.parameter ⟨⟨17, 18⟩, .positional, "v", none⟩ none) := by cbv
    have isPath : locate lambdaUnit.suite 19 =
        [.stmt (.assign ⟨6, 23⟩ [.name ⟨6, 7⟩ "g" .store] defaultingLambda),
          .expr defaultingLambda, .expr (.name ⟨19, 20⟩ "v" .load)] := by cbv
    have pointsAtName : PointsAtName lambdaUnit 19 := ⟨_, _, _, congrArg List.getLast? isPath⟩
    obtain ⟨span, signature, body, below, read, inBody⟩ :=
      inBodies.lambda _ _ classified pointsAtName
    have isOwner : Expr.lambda span signature body = defaultingLambda := by
      simpa [isPath] using read.owner_mem
    rw [isOwner] at read inBody
    exact read.not_inBody_of_default rfl List.mem_cons_self rfl (by decide) inBody

end Flow

end TypeTrace
