import Mathlib.Logic.Relation
import TypeTrace.Flow.Event
import TypeTrace.Proofs.Flow.Pairing
import TypeTrace.Proofs.Syntax.Visits

/-!
# Derivations of types

What can flow where, said without any search.  A place is a parameter, the text of a
variable, or an expression.  `FlowStep` leads from a place to the places its types come
from, and `Ends` says which label, found at which node, a place contributes by itself.  A
type is derivable from an element when a chain of steps leads from the element to a place
that ends in it.

Every expression that a step leads to stands in the unit (`FlowStep.visited`), so chains
range over finitely many places.
-/

namespace TypeTrace.Flow

open TypeTrace.Syntax TypeTrace.Types

/-- Something that a chain passes through. -/
inductive Place where
  | parameter (declared : Parameter Expr) (function : Option Function)
  | text (text : String)
  | expression (value : Expr)

/-- The place that a subject is.  Calls of one function are different places. -/
def Subject.place : Subject → Place
  | .parameter declared function => .parameter declared function
  | .variable text => .text text
  | .call site _ => .expression site.expression

/-- A statement that assigns a value to a target. -/
inductive Assigns : Node → Expr → Expr → Prop where
  | plain {span : Span} {targets : List Expr} {target value : Expr}
      (member : target ∈ targets) :
      Assigns (.stmt (.assign span targets value)) target value
  | annotated {span : Span} {target hint value : Expr} :
      Assigns (.stmt (.annAssign span target hint (some value))) target value

/-- An expression that calls a function of the unit. -/
def Runs (unit : SourceUnit) (value : Expr) (site : CallSite) (function : Function) : Prop :=
  value.callSite? = some site ∧ calledFunction? unit site = some function

/-- An expression that is neither a name nor a call of a function of the unit. -/
def Terminal (unit : SourceUnit) (value : Expr) : Prop :=
  value.isVariable = false ∧
    ∀ site, value.callSite? = some site → calledFunction? unit site = none

/-- A position at which a function declares the first parameter of a name. -/
structure Declares (function : Function) (name : String) (index : Nat) : Prop where
  named : ∃ declared, function.parameters[index]? = some declared ∧ declared.name = name
  first : ∀ earlier ∈ function.parameters.take index, earlier.name ≠ name

/-- From a place to one that its types come from.  No step looks at what was passed
before. -/
inductive FlowStep (unit : SourceUnit) : Place → Place → Prop where
  /-- A variable takes the values that assignments pair with it. -/
  | assigned {statement : Node} {target value leaf received : Expr} {text : String}
      (visited : unit.Visited statement) (assigns : Assigns statement target value)
      (paired : (leaf, received) ∈ pairs target value)
      (isVariable : leaf.isVariable = true) (known : unit.nameText leaf = text) :
      FlowStep unit (.text text) (.expression received)
  /-- A variable that is called takes what its calls give. -/
  | called {call : Expr} {site : CallSite} {text : String}
      (visited : unit.Visited (.expr call)) (isCall : call.callSite? = some site)
      (known : unit.calleeText site = text) :
      FlowStep unit (.text text) (.expression call)
  /-- A parameter without annotation takes the arguments at its position. -/
  | passed {declared : Parameter Expr} {function : Function} {call argument : Expr}
      {site : CallSite} {index : Nat}
      (unannotated : declared.hint = none)
      (position : Declares function declared.name index)
      (visited : unit.Visited (.expr call)) (isCall : call.callSite? = some site)
      (byName : site.calleeName? = some function.name)
      (given : site.arguments[index]? = some argument) :
      FlowStep unit (.parameter declared (some function)) (.expression argument)
  /-- A name or attribute chain is known by its text. -/
  | named {value : Expr} (isVariable : value.isVariable = true) :
      FlowStep unit (.expression value) (.text (unit.nameText value))
  /-- A call takes the values its function returns. -/
  | returned {call result : Expr} {site : CallSite} {function : Function} {visit : Visit}
      {span : Span} (runs : Runs unit call site function)
      (visited : visit ∈ bodyVisits function.body)
      (isReturn : visit.node = .stmt (.return span (some result))) :
      FlowStep unit (.expression call) (.expression result)

/-- The label that a place contributes by itself, and the node it is found at. -/
inductive Ends (oracle : Oracle) (limit : Option Nat) (unit : SourceUnit) :
    Place → Node → String → Prop where
  /-- An expression that leads no further has the type that the oracle knows. -/
  | typed {value : Expr} {type : Descriptor} {label : String}
      (terminal : Terminal unit value) (known : oracle unit value = some type)
      (member : label ∈ type.labels limit) :
      Ends oracle limit unit (.expression value) (.expr value) label
  /-- A call of an unknown function whose type is not known is labelled by itself. -/
  | untyped {value : Expr} {site : CallSite}
      (isCall : value.callSite? = some site) (undefined : calledFunction? unit site = none)
      (unknown : oracle unit value = none) :
      Ends oracle limit unit (.expression value) (.expr value) (unit.callLabel site)
  /-- An annotated parameter has the types its annotation names. -/
  | parameterHint {declared : Parameter Expr} {function : Option Function} {hint : Expr}
      {label : String} (annotated : declared.hint = some hint)
      (member : label ∈ unionMembers (hintText (unit.slice hint.span)) limit) :
      Ends oracle limit unit (.parameter declared function) (.param declared) label
  /-- A call has the types that its function's return annotation names. -/
  | returnHint {call hint : Expr} {site : CallSite} {function : Function} {label : String}
      (runs : Runs unit call site function) (annotated : function.returns = some hint)
      (member : label ∈ unionMembers (hintText (unit.slice hint.span)) limit) :
      Ends oracle limit unit (.expression call) (.expr call) label
  /-- A call of a function with a `return` that may be passed by may have no value. -/
  | fallThrough {call : Expr} {site : CallSite} {function : Function} {visit : Visit}
      {span : Span} {result : Option Expr} (runs : Runs unit call site function)
      (visited : visit ∈ bodyVisits function.body)
      (isReturn : visit.node = .stmt (.return span result))
      (conditional : visit.conditional = true) :
      Ends oracle limit unit (.expression call) (.expr call) "None"
  /-- A call of a function with a bare `return` has no value if that is reached. -/
  | bareReturn {call : Expr} {site : CallSite} {function : Function} {visit : Visit}
      {span : Span} (runs : Runs unit call site function)
      (visited : visit ∈ bodyVisits function.body)
      (isReturn : visit.node = .stmt (.return span none))
      (unconditional : visit.conditional = false) :
      Ends oracle limit unit (.expression call) visit.node "None"

/-- A label, found at a node, that a chain of steps from an element ends in. -/
def Derivable (oracle : Oracle) (limit : Option Nat) (unit : SourceUnit) (element : Element)
    (node : Node) (label : String) : Prop :=
  ∃ place, Relation.ReflTransGen (FlowStep unit) element.subject.place place ∧
    Ends oracle limit unit place node label

/-! ## Subjects of expressions -/

variable {unit : SourceUnit}

theorem expression_of_callSite? {value : Expr} {site : CallSite}
    (isCall : value.callSite? = some site) : site.expression = value := by
  cases value with
  | call => cases isCall; rfl
  | _ => cases isCall

theorem isVariable_of_callSite? {value : Expr} {site : CallSite}
    (isCall : value.callSite? = some site) : value.isVariable = false := by
  cases value with
  | call => rfl
  | _ => cases isCall

/-- A name has no types of its own: it leads to the variable it names. -/
theorem Ends.isVariable_eq_false {oracle : Oracle} {limit : Option Nat} {value : Expr}
    {node : Node} {label : String}
    (ends : Ends oracle limit unit (.expression value) node label) :
    value.isVariable = false := by
  cases ends with
  | typed terminal => exact terminal.1
  | untyped isCall => exact isVariable_of_callSite? isCall
  | returnHint runs => exact isVariable_of_callSite? runs.1
  | fallThrough runs => exact isVariable_of_callSite? runs.1
  | bareReturn runs => exact isVariable_of_callSite? runs.1

theorem subject?_of_isVariable {value : Expr} (isVariable : value.isVariable = true) :
    subject? unit value = some (.variable (unit.nameText value)) := by
  simp [subject?, isVariable]

theorem subject?_of_runs {value : Expr} {site : CallSite} {function : Function}
    (runs : Runs unit value site function) :
    subject? unit value = some (.call site function) := by
  simp [subject?, isVariable_of_callSite? runs.1, runs.1, runs.2]

theorem subject?_eq_none_iff {value : Expr} :
    subject? unit value = none ↔ Terminal unit value := by
  cases isVariable : value.isVariable with
  | true => simp [subject?, Terminal, isVariable]
  | false =>
      cases isCall : value.callSite? with
      | none => simp [subject?, Terminal, isVariable, isCall]
      | some site => simp [subject?, Terminal, isVariable, isCall]

/-- An expression leads to the variable it names or to the call it is. -/
theorem subject?_cases {value : Expr} {subject : Subject}
    (leads : subject? unit value = some subject) :
    (value.isVariable = true ∧ subject = .variable (unit.nameText value)) ∨
      ∃ site function, Runs unit value site function ∧ subject = .call site function := by
  cases isVariable : value.isVariable with
  | true =>
      rw [subject?_of_isVariable isVariable] at leads
      cases leads
      exact .inl ⟨rfl, rfl⟩
  | false =>
      simp only [subject?, isVariable, Bool.false_eq_true, ↓reduceIte,
        Option.bind_eq_some_iff, Option.map_eq_some_iff] at leads
      obtain ⟨site, isCall, function, runs, rfl⟩ := leads
      exact .inr ⟨site, function, ⟨isCall, runs⟩, rfl⟩

/-- A subject whose function, if it is a call, is the one that the call runs. -/
def Subject.Genuine (unit : SourceUnit) : Subject → Prop
  | .call site function => calledFunction? unit site = some function
  | _ => True

theorem genuine_of_subject? {value : Expr} {subject : Subject}
    (leads : subject? unit value = some subject) : subject.Genuine unit := by
  rcases subject?_cases leads with ⟨_, rfl⟩ | ⟨site, function, runs, rfl⟩
  · exact True.intro
  · exact runs.2

theorem Element.subject_genuine (element : Element) : element.subject.Genuine unit := by
  cases element <;> exact True.intro

/-- The subject that a place is or leads to. -/
def Place.subject? (unit : SourceUnit) : Place → Option Subject
  | .parameter declared function => some (.parameter declared function)
  | .text name => some (.variable name)
  | .expression value => Flow.subject? unit value

theorem subject?_place {subject : Subject} (genuine : subject.Genuine unit) :
    subject.place.subject? unit = some subject := by
  match subject, genuine with
  | .parameter _ _, _ => rfl
  | .variable _, _ => rfl
  | .call _ _, runs => exact subject?_of_runs ⟨rfl, runs⟩

/-! ## Steps stay within the unit -/

/-- A function that a call runs is defined in the unit. -/
theorem mem_definitions_of_calledFunction? {site : CallSite} {function : Function}
    (runs : calledFunction? unit site = some function) :
    ∃ definition ∈ definitions unit.suite, definition.function = function := by
  unfold calledFunction? at runs
  split at runs
  next =>
    simp only [functionNamed?, Option.map_eq_some_iff, Option.or_eq_some_iff] at runs
    obtain ⟨definition, earlier | ⟨_, first⟩, rfl⟩ := runs
    · have candidate := (List.mem_filter.mp (List.mem_of_getLast? earlier)).1
      exact ⟨definition, (List.mem_filter.mp candidate).1, rfl⟩
    · exact ⟨definition, (List.mem_filter.mp (List.mem_of_head? first)).1, rfl⟩
  next =>
    simp only [methodNamed?, Option.bind_eq_some_iff, Option.map_eq_some_iff] at runs
    obtain ⟨_, _, definition, found, rfl⟩ := runs
    exact ⟨definition, List.mem_of_find?_eq_some found, rfl⟩
  next => cases runs

theorem Assigns.value_mem_children {statement : Node} {target value : Expr}
    (assigns : Assigns statement target value) :
    Node.expr value ∈ statement.children := by
  cases assigns with
  | plain => simp [Node.children, Stmt.children]
  | annotated => simp [Node.children, Stmt.children, Node.ofExpr?]

/-- Whatever a step leads to is an expression that the walk over the unit comes by. -/
theorem FlowStep.visited {place : Place} {value : Expr}
    (step : FlowStep unit place (.expression value)) : unit.Visited (.expr value) := by
  have hereditary := unit.visited_hereditary
  cases step with
  | assigned visited assigns paired =>
      exact pairs_within hereditary (hereditary visited assigns.value_mem_children) _ paired
  | called visited => exact visited
  | passed _ _ visited isCall _ given =>
      apply hereditary visited
      rw [← expression_of_callSite? isCall]
      have member := List.mem_of_getElem? given
      simp only [CallSite.expression, Node.children, Expr.children, Node.ofExprs,
        List.mem_cons, List.mem_append, List.mem_map]
      exact .inr (.inl ⟨value, member, rfl⟩)
  | returned runs inBody isReturn =>
      obtain ⟨definition, defined, rfl⟩ := mem_definitions_of_calledFunction? runs.2
      have visited := SourceUnit.visited_of_mem_bodyVisits defined inBody
      rw [isReturn] at visited
      apply hereditary visited
      simp [Node.children, Stmt.children, Node.ofExpr?]

end TypeTrace.Flow
