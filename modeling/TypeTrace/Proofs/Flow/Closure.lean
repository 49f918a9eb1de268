import TypeTrace.Config
import TypeTrace.Oracle.Builtin
import TypeTrace.Proofs.Flow.Anchor
import TypeTrace.Proofs.Flow.Search

/-!
# Finished searches are closed

When a search is over, nothing is left that it should have followed.  An expression is
accounted for when the label it leads to has been opened, or when it leads nowhere and its
types are among the entries found.  Every expression that a step leads to from an opened
text, from an opened call or from the parameter the search began with is accounted for
(`Closed`).

A label may be passed over while it is still being worked on further out.  It is opened
all the same, and its tasks are settled by the time the search is over, which is all that
`Opened.settled` speaks about.
-/

namespace TypeTrace.Flow

open Syntax

/-- An expression that needs no further work, by the labels opened and the entries
found. -/
def Accounted (oracle : Oracle) (limit : Option Nat) (unit : SourceUnit)
    (opened : List String) (found : List Entry) (value : Expr) : Prop :=
  (value.isVariable = true ∧ unit.nameText value ∈ opened) ∨
  (∃ site function, Runs unit value site function ∧ unit.callLabel site ∈ opened) ∨
  (Terminal unit value ∧
    (∀ type, oracle unit value = some type →
      ∀ label ∈ type.labels limit, Entry.ofNode unit (.expr value) label ∈ found) ∧
    (∀ site, oracle unit value = none → value.callSite? = some site →
      Entry.ofNode unit (.expr value) (unit.callLabel site) ∈ found))

/-- A search that has left nothing out, by the labels it opened and the entries found. -/
structure Closed (oracle : Oracle) (limit : Option Nat) (unit : SourceUnit)
    (element : Element) (opened : List String) (found : List Entry) : Prop where
  /-- Only labels of what was entered count as opened. -/
  labels : ∀ label ∈ opened,
    ∃ entry, Step.enter entry ∈ trace unit element ∧ entry.label = label
  /-- Whatever is assigned to a text that was entered, and every call of it. -/
  texts : ∀ value text, value.isVariable = true →
    Step.enter (.ofNode unit (.expr value) text) ∈ trace unit element →
    ∀ next, FlowStep unit (.text text) (.expression next) →
      Accounted oracle limit unit opened found next
  /-- Whatever the function of a call that was entered returns. -/
  calls : ∀ call site function, Runs unit call site function →
    Step.enter (.ofNode unit (.expr call) (unit.callLabel site)) ∈ trace unit element →
    ∀ next, FlowStep unit (.expression call) (.expression next) →
      Accounted oracle limit unit opened found next
  /-- Whatever is passed to the parameter that the search began with. -/
  parameter : ∀ declared function, element.subject = .parameter declared function →
    ∀ next, FlowStep unit (.parameter declared function) (.expression next) →
      Accounted oracle limit unit opened found next

variable {unit : SourceUnit} {oracle : Oracle} {limit : Option Nat} {element : Element}

/-- An expression that was to be followed is accounted for once that is settled. -/
theorem accounted_of_settled {opened : List String} {value : Expr}
    (settled : Settled unit (trace unit element) opened (.follow value)) :
    Accounted oracle limit unit opened
      (flatEntries (events oracle limit unit element)) value := by
  cases leads : subject? unit value with
  | some subject =>
      simp only [Settled, leads] at settled
      rcases subject?_cases leads with ⟨isVariable, rfl⟩ | ⟨site, function, runs, rfl⟩
      · exact .inl ⟨isVariable, settled⟩
      · exact .inr (.inl ⟨site, function, runs, settled⟩)
  | none =>
      simp only [Settled, leads] at settled
      refine .inr (.inr ⟨subject?_eq_none_iff.mp leads, ?_, ?_⟩)
      · intro type known label member
        exact ofNode_mem_flatEntries settled
          (by simpa [Evidence.labels, known] using member)
      · intro site unknown isCall
        exact ofNode_mem_flatEntries settled (by simp [Evidence.labels, unknown, isCall])

/-- Whatever a step leads to from a subject that was opened is accounted for. -/
theorem Opened.accounted {subject : Subject} {next : Expr}
    (opened : Opened unit element subject)
    (step : FlowStep unit subject.place (.expression next)) :
    Accounted oracle limit unit (search unit element).opened
      (flatEntries (events oracle limit unit element)) next :=
  accounted_of_settled (opened.settled ((follow_mem_tasks opened.genuine).mpr step))

/-- A name that was entered was opened as the variable of its text. -/
theorem opened_of_enter_variable {value : Expr} {text : String}
    (isVariable : value.isVariable = true)
    (entered : Step.enter (.ofNode unit (.expr value) text) ∈ trace unit element) :
    Opened unit element (.variable text) := by
  rcases enter_cases entered with isRoot | ⟨other, subject, opens, isEntry⟩
  · injection isRoot with _ isText isNode
    cases element with
    | parameter | parameterUse => cases isNode
    | «variable» => exact .inl (congrArg Subject.variable isText)
  · injection isEntry with _ isText isNode
    injection isNode with isValue
    subst isValue
    rcases subject?_cases opens.1 with ⟨_, rfl⟩ | ⟨site, function, runs, rfl⟩
    · subst isText
      exact .inr ⟨value, opens⟩
    · cases isVariable.symm.trans (isVariable_of_callSite? runs.1)

/-- A call that was entered was opened as that call: an element is never one. -/
theorem opened_of_enter_call {offset : Nat} (classified : classify unit offset = .ok element)
    {call : Expr} {site : CallSite} {function : Function} {label : String}
    (runs : Runs unit call site function)
    (entered : Step.enter (.ofNode unit (.expr call) label) ∈ trace unit element) :
    Opened unit element (.call site function) := by
  rcases enter_cases entered with isRoot | ⟨other, subject, opens, isEntry⟩
  · injection isRoot with _ _ isNode
    cases element with
    | parameter | parameterUse => cases isNode
    | «variable» =>
        injection isNode with isValue
        subst isValue
        cases (isVariable_of_classify classified).1.symm.trans
          (isVariable_of_callSite? runs.1)
  · injection isEntry with _ _ isNode
    injection isNode with isValue
    subst isValue
    cases (subject?_of_runs runs).symm.trans opens.1
    exact .inr ⟨call, opens⟩

/-- For every unit and every element that an offset is classified as, the search leaves
nothing out. -/
theorem closed_of_classify (oracle : Oracle) (config : ResolverConfig) {unit : SourceUnit}
    {offset : Nat} {element : Element} (classified : classify unit offset = .ok element) :
    Closed oracle config.unionLimit unit element (search unit element).opened
      (flatEntries (events oracle config.unionLimit unit element)) where
  labels := by
    intro label member
    obtain ⟨subject, isRoot | ⟨value, entered⟩, isLabel⟩ := exists_opened_of_mem member
    · subst isRoot
      refine ⟨.ofNode unit element.node (element.subject.label unit), ?_, isLabel⟩
      rw [trace_eq]
      exact List.mem_cons_self
    · exact ⟨_, innerSteps_subset entered.2, isLabel⟩
  texts := by
    intro value text isVariable entered next step
    exact (opened_of_enter_variable isVariable entered).accounted step
  calls := by
    intro call site function runs entered next step
    rw [← expression_of_callSite? runs.1] at step
    exact (opened_of_enter_call classified runs entered).accounted step
  parameter := by
    intro declared function isParameter next step
    have opened : Opened unit element (.parameter declared function) := .inl isParameter.symm
    exact opened.accounted step

/-! ## A search in a circle and a search from a parameter -/

/-- Two variables that are assigned to each other, and a function that returns one of
them:
```
def f():
    return a
a = b
b = f()
b = 1
``` -/
def circle : SourceUnit where
  path := "circle.py"
  text := "def f():\n    return a\na = b\nb = f()\nb = 1\n".toList
  suite := [
    .functionDef ⟨0, 21⟩ false "f" [] none []
      [.return ⟨13, 21⟩ (some (.name ⟨20, 21⟩ "a" .load))],
    .assign ⟨22, 27⟩ [.name ⟨22, 23⟩ "a" .store] (.name ⟨26, 27⟩ "b" .load),
    .assign ⟨28, 35⟩ [.name ⟨28, 29⟩ "b" .store]
      (.call ⟨32, 35⟩ (.name ⟨32, 33⟩ "f" .load) [] []),
    .assign ⟨36, 41⟩ [.name ⟨36, 37⟩ "b" .store] (.constant ⟨40, 41⟩ .int)]

/-- The parameter of `g` in `passing`. -/
def passedParameter : Parameter Expr := ⟨⟨6, 7⟩, .positional, "p", none⟩

/-- A function whose parameter takes a number from one call and a variable from another:
```
def g(p):
    pass
q = 's'
g(1)
g(q)
``` -/
def passing : SourceUnit where
  path := "passing.py"
  text := "def g(p):\n    pass\nq = 's'\ng(1)\ng(q)\n".toList
  suite := [
    .functionDef ⟨0, 18⟩ false "g" [⟨passedParameter, none⟩] none [] [.simple ⟨14, 18⟩ .pass],
    .assign ⟨19, 26⟩ [.name ⟨19, 20⟩ "q" .store] (.constant ⟨23, 26⟩ .str),
    .expr ⟨27, 31⟩ (.call ⟨27, 31⟩ (.name ⟨27, 28⟩ "g" .load) [.constant ⟨29, 30⟩ .int] []),
    .expr ⟨32, 36⟩ (.call ⟨32, 36⟩ (.name ⟨32, 33⟩ "g" .load) [.name ⟨34, 35⟩ "q" .load] [])]

/-- The element at that parameter. -/
def passedElement : Element :=
  .parameter passedParameter
    (some ⟨⟨0, 18⟩, "g", [⟨passedParameter, none⟩], none, [.simple ⟨14, 18⟩ .pass]⟩)

/-- The search from `a` opens `a`, `b` and `f()`, comes back to `a`, and is closed.  The search
from the parameter of `g` opens it and `q`, and finds what both calls pass. -/
theorem closed_circle :
    (classify circle 22 = .ok (.variable (.name ⟨22, 23⟩ "a" .store) "a") ∧
      Closed Builtin.oracle none circle (.variable (.name ⟨22, 23⟩ "a" .store) "a")
        ["f()", "b", "a"]
        [.ofNode circle (.expr (.constant ⟨40, 41⟩ .int)) "int"]) ∧
    (classify passing 6 = .ok passedElement ∧
      Closed Builtin.oracle none passing passedElement ["q", "p"]
        [.ofNode passing (.expr (.constant ⟨29, 30⟩ .int)) "int",
          .ofNode passing (.expr (.constant ⟨23, 26⟩ .str)) "str"]) := by
  constructor
  · have classified :
        classify circle 22 = .ok (.variable (.name ⟨22, 23⟩ "a" .store) "a") := by
      with_unfolding_all rfl
    have opened : (search circle (.variable (.name ⟨22, 23⟩ "a" .store) "a")).opened =
        ["f()", "b", "a"] := by with_unfolding_all rfl
    have found : flatEntries (events Builtin.oracle none circle
        (.variable (.name ⟨22, 23⟩ "a" .store) "a")) =
        [.ofNode circle (.expr (.constant ⟨40, 41⟩ .int)) "int"] := by with_unfolding_all rfl
    have closed := closed_of_classify Builtin.oracle ⟨0, .all⟩ classified
    rw [opened] at closed
    exact ⟨classified, found ▸ closed⟩
  · have classified : classify passing 6 = .ok passedElement := by with_unfolding_all rfl
    have opened : (search passing passedElement).opened = ["q", "p"] := by with_unfolding_all rfl
    have found : flatEntries (events Builtin.oracle none passing passedElement) =
        [.ofNode passing (.expr (.constant ⟨29, 30⟩ .int)) "int",
          .ofNode passing (.expr (.constant ⟨23, 26⟩ .str)) "str"] := by with_unfolding_all rfl
    have closed := closed_of_classify Builtin.oracle ⟨0, .all⟩ classified
    rw [opened] at closed
    exact ⟨classified, found ▸ closed⟩

end TypeTrace.Flow
