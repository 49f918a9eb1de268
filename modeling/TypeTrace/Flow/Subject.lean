import TypeTrace.Flow.Element
import TypeTrace.Flow.Pairing
import TypeTrace.Syntax.Walk

/-!
# Subjects and what is to be done for them

A subject is something types flow into: a parameter, a variable, or a call of a
function that is defined in the unit.  `tasks` lists, in source order, what has to be
done to find its types.  A task either reports evidence on the spot or names an
expression to follow.

None of this depends on an oracle or on a limit: these only decide what labels a piece
of evidence has.
-/

namespace TypeTrace.Flow

open Syntax

/-- A reason for types to be found. -/
inductive Evidence where
  /-- An annotation, found at a node. -/
  | hint (node : Node) (text : String)
  /-- A way to end without a value, found at a node. -/
  | nothing (node : Node)
  /-- An expression that leads no further. -/
  | value (expression : Expr)

/-- A step in finding the types of a subject. -/
inductive Task where
  | report (evidence : Evidence)
  | follow (value : Expr)

/-- Something that types flow into. -/
inductive Subject where
  | parameter (parameter : Parameter Expr) (function : Option Function)
  | variable (text : String)
  | call (site : CallSite) (function : Function)

/-- The definition a plain name calls: the last one that begins before the call, or
else the first one. -/
def functionNamed? (definitions : List Definition) (name : String) (start : Nat) :
    Option Function :=
  let candidates := definitions.filter fun definition =>
    definition.owner.isNone && definition.function.name == name
  let earlier := candidates.filter (·.function.span.start < start)
  (earlier.getLast?.or candidates.head?).map (·.function)

/-- The method of a class. -/
def methodNamed? (definitions : List Definition) (owner name : String) : Option Function :=
  (definitions.find? fun definition =>
    definition.owner == some owner && definition.function.name == name).map (·.function)

/-- The class that a receiver means at an offset: the class around it for `self` and
`cls`, and the class of its own name otherwise. -/
def receiverClass? (unit : SourceUnit) (receiver : String) (offset : Nat) :
    Option String :=
  if receiver = "self" ∨ receiver = "cls" then
    enclosingClass? (locate unit.suite offset)
  else
    some receiver

/-- The function that a call runs, if it is defined in the unit. -/
def calledFunction? (unit : SourceUnit) (site : CallSite) : Option Function :=
  match site.callee with
  | .name _ id _ => functionNamed? (definitions unit.suite) id site.span.start
  | .attribute _ (.name _ receiver _) method _ =>
      (receiverClass? unit receiver site.span.start).bind fun owner =>
        methodNamed? (definitions unit.suite) owner method
  | _ => none

/-- The subject an expression leads to, if it leads anywhere. -/
def subject? (unit : SourceUnit) (expression : Expr) : Option Subject :=
  if expression.isVariable then
    some (.variable (unit.nameText expression))
  else
    expression.callSite?.bind fun site =>
      (calledFunction? unit site).map (.call site)

/-- The label that a subject is known by. -/
def Subject.label (unit : SourceUnit) : Subject → String
  | .parameter declared _ => declared.name
  | .variable text => text
  | .call site _ => unit.callLabel site

/-- The arguments at a position of the calls by a name. -/
def argumentsAt (unit : SourceUnit) (name : String) (index : Nat) : List Expr :=
  unit.calls.filterMap fun site =>
    if site.calleeName? = some name then site.arguments[index]? else none

/-- What to do for a parameter: its annotation says it all; without one the arguments
of the calls by the function's name do. -/
def parameterTasks (unit : SourceUnit) (parameter : Parameter Expr)
    (function : Option Function) : List Task :=
  match parameter.hint with
  | some hint =>
      [.report (.hint (.param parameter) (unit.slice hint.span))]
  | none =>
      match function.bind fun owner =>
          (owner.parameterIndex? parameter.name).map fun index => (owner.name, index) with
      | some (name, index) => (argumentsAt unit name index).map .follow
      | none => []

/-- The values that an assignment gives to the variable of a text. -/
def valuesFor (unit : SourceUnit) (text : String) (target value : Expr) : List Expr :=
  (pairs target value).filterMap fun (leaf, leafValue) =>
    if leaf.isVariable && unit.nameText leaf == text then some leafValue else none

/-- The expressions through which a node lets types into the variable of a text: the
values it assigns, and a call of the variable. -/
def inflow (unit : SourceUnit) (text : String) : Node → List Expr
  | .stmt (.assign _ targets value) => targets.flatMap (valuesFor unit text · value)
  | .stmt (.annAssign _ target _ (some value)) => valuesFor unit text target value
  | .expr expression =>
      match expression.callSite? with
      | some site => if unit.calleeText site = text then [expression] else []
      | none => []
  | _ => []

/-- What to do for a variable. -/
def variableTasks (unit : SourceUnit) (text : String) : List Task :=
  (unit.visits.flatMap fun visit => inflow unit text visit.node).map .follow

/-- A `return` in a function body. -/
structure ReturnSite where
  node : Node
  value : Option Expr
  conditional : Bool

/-- The `return` that a visit comes by. -/
def returnSite? (visit : Visit) : Option ReturnSite :=
  match visit.node with
  | .stmt (.return _ value) => some ⟨visit.node, value, visit.conditional⟩
  | _ => none

/-- Every `return` of a function's own body. -/
def returnSites (function : Function) : List ReturnSite :=
  (bodyVisits function.body).filterMap returnSite?

namespace ReturnSite

/-- Whether a `return` shows that a call may have no value. -/
def mayBeNothing (site : ReturnSite) : Bool :=
  site.conditional || site.value.isNone

/-- Where that is reported: at the call if the `return` may be passed by, and at the
`return` if it is bare. -/
def nothingNode (site : ReturnSite) (call : Node) : Node :=
  if site.conditional then call else site.node

/-- The value of a `return`, to be followed. -/
def valueTasks (site : ReturnSite) : List Task :=
  (site.value.map Task.follow).toList

end ReturnSite

/-- What to do for the returns of a call.  The first that shows a way to end without a
value is also the only one that reports it. -/
def returnSiteTasks (call : Node) : (reported : Bool) → List ReturnSite → List Task
  | _, [] => []
  | true, site :: rest => site.valueTasks ++ returnSiteTasks call true rest
  | false, site :: rest =>
      if site.mayBeNothing then
        .report (.nothing (site.nothingNode call)) ::
          (site.valueTasks ++ returnSiteTasks call true rest)
      else
        site.valueTasks ++ returnSiteTasks call false rest

/-- The return annotation of a function, reported at a call. -/
def returnHintTasks (unit : SourceUnit) (call : Node) (function : Function) :
    List Task :=
  match function.returns with
  | some hint => [.report (.hint call (unit.slice hint.span))]
  | none => []

/-- What to do for a call of a function. -/
def callTasks (unit : SourceUnit) (call : Node) (function : Function) : List Task :=
  returnHintTasks unit call function ++
    returnSiteTasks call false (returnSites function)

/-- What to do to find the types of a subject. -/
def tasks (unit : SourceUnit) : Subject → List Task
  | .parameter parameter function => parameterTasks unit parameter function
  | .variable text => variableTasks unit text
  | .call site function => callTasks unit (.expr site.expression) function

end TypeTrace.Flow
