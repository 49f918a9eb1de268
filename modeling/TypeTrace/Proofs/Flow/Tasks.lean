import TypeTrace.Proofs.Flow.Derivation

/-!
# Tasks and steps

The tasks of a subject are the steps from its place.  What is to be followed for a subject
is exactly what a step leads to (`follow_mem_tasks`).  What is reported for it is what its
place ends in (`ends_of_report_mem_tasks`), and every label that a place ends in is
reported (`report_of_ends_parameter`, `report_of_ends_call`), although a missing value is
reported once for all the returns that show it.
-/

namespace TypeTrace.Flow

open TypeTrace.Syntax TypeTrace.Types

variable {unit : SourceUnit}

/-! ## What is followed for a subject -/

theorem mem_valuesFor {text : String} {target value received : Expr} :
    received ∈ valuesFor unit text target value ↔
      ∃ leaf, (leaf, received) ∈ pairs target value ∧ leaf.isVariable = true ∧
        unit.nameText leaf = text := by
  simp only [valuesFor, List.mem_filterMap, Prod.exists, Option.ite_none_right_eq_some,
    Bool.and_eq_true, beq_iff_eq, Option.some.injEq]
  constructor
  · rintro ⟨leaf, other, paired, ⟨isVariable, known⟩, rfl⟩
    exact ⟨leaf, paired, isVariable, known⟩
  · rintro ⟨leaf, paired, isVariable, known⟩
    exact ⟨leaf, received, paired, ⟨isVariable, known⟩, rfl⟩

/-- A node lets types into a variable by assigning to it or by calling it. -/
theorem mem_inflow {text : String} {node : Node} {received : Expr} :
    received ∈ inflow unit text node ↔
      (∃ target value, Assigns node target value ∧
        received ∈ valuesFor unit text target value) ∨
      (∃ site, node = .expr received ∧ received.callSite? = some site ∧
        unit.calleeText site = text) := by
  constructor
  · intro member
    unfold inflow at member
    split at member
    next span targets value =>
      obtain ⟨target, isTarget, member⟩ := List.mem_flatMap.mp member
      exact .inl ⟨target, value, .plain isTarget, member⟩
    next span target hint value => exact .inl ⟨target, value, .annotated, member⟩
    next expression =>
      split at member
      next site isCall =>
        split at member
        next known =>
          cases List.mem_singleton.mp member
          exact .inr ⟨site, rfl, isCall, known⟩
        next => cases member
      next => cases member
    next => cases member
  · rintro (⟨target, value, assigns, member⟩ | ⟨site, rfl, isCall, known⟩)
    · cases assigns with
      | plain isTarget => exact List.mem_flatMap.mpr ⟨target, isTarget, member⟩
      | annotated => exact member
    · simp [inflow, isCall, known]

theorem follow_mem_variableTasks {text : String} {value : Expr} :
    Task.follow value ∈ variableTasks unit text ↔
      FlowStep unit (.text text) (.expression value) := by
  simp only [variableTasks, List.mem_map, Task.follow.injEq, exists_eq_right,
    List.mem_flatMap]
  constructor
  · rintro ⟨visit, visited, member⟩
    rcases mem_inflow.mp member with ⟨target, source, assigns, member⟩ |
      ⟨site, isNode, isCall, known⟩
    · obtain ⟨leaf, paired, isVariable, known⟩ := mem_valuesFor.mp member
      exact .assigned ⟨visit, visited, rfl⟩ assigns paired isVariable known
    · exact .called ⟨visit, visited, isNode⟩ isCall known
  · intro step
    cases step with
    | assigned visited assigns paired isVariable known =>
        obtain ⟨visit, visited, rfl⟩ := visited
        refine ⟨visit, visited, mem_inflow.mpr (.inl ⟨_, _, assigns, ?_⟩)⟩
        exact mem_valuesFor.mpr ⟨_, paired, isVariable, known⟩
    | called visited isCall known =>
        obtain ⟨visit, visited, isNode⟩ := visited
        exact ⟨visit, visited, mem_inflow.mpr (.inr ⟨_, isNode, isCall, known⟩)⟩

theorem parameterIndex?_eq_some_iff {function : Function} {name : String} {index : Nat} :
    function.parameterIndex? name = some index ↔ Declares function name index := by
  rw [Function.parameterIndex?, List.findIdx?_eq_some_iff_getElem]
  constructor
  · rintro ⟨inside, named, first⟩
    refine ⟨⟨_, List.getElem?_eq_getElem inside, by simpa using named⟩, ?_⟩
    intro earlier member
    obtain ⟨place, before, rfl⟩ := List.mem_take_iff_getElem.mp member
    have differs := first place (by omega)
    simpa using differs
  · rintro ⟨⟨declared, found, named⟩, first⟩
    obtain ⟨inside, rfl⟩ := List.getElem?_eq_some_iff.mp found
    refine ⟨inside, by simpa using named, ?_⟩
    intro place before
    have differs := first _ (List.mem_take_iff_getElem.mpr ⟨place, by omega, rfl⟩)
    simpa using differs

theorem mem_calls {site : CallSite} :
    site ∈ unit.calls ↔ ∃ call, unit.Visited (.expr call) ∧ call.callSite? = some site := by
  simp only [SourceUnit.calls, List.mem_filterMap, Option.bind_eq_some_iff]
  constructor
  · rintro ⟨visit, visited, call, isExpr, isCall⟩
    refine ⟨call, ⟨visit, visited, ?_⟩, isCall⟩
    cases isNode : visit.node with
    | expr =>
        rw [isNode] at isExpr
        cases isExpr
        rfl
    | stmt =>
        rw [isNode] at isExpr
        cases isExpr
    | param =>
        rw [isNode] at isExpr
        cases isExpr
  · rintro ⟨call, ⟨visit, visited, isNode⟩, isCall⟩
    exact ⟨visit, visited, call, by rw [isNode]; rfl, isCall⟩

theorem follow_mem_parameterTasks {declared : Parameter Expr} {function : Option Function}
    {value : Expr} :
    Task.follow value ∈ parameterTasks unit declared function ↔
      FlowStep unit (.parameter declared function) (.expression value) := by
  constructor
  · intro member
    unfold parameterTasks at member
    split at member
    next => simp at member
    next unannotated =>
      split at member
      next name index located =>
        simp only [Option.bind_eq_some_iff, Option.map_eq_some_iff, Prod.mk.injEq] at located
        obtain ⟨owner, rfl, position, indexed, rfl, rfl⟩ := located
        simp only [argumentsAt, List.mem_map, Task.follow.injEq, exists_eq_right,
          List.mem_filterMap, Option.ite_none_right_eq_some] at member
        obtain ⟨site, member, byName, given⟩ := member
        obtain ⟨call, visited, isCall⟩ := mem_calls.mp member
        exact .passed unannotated (parameterIndex?_eq_some_iff.mp indexed) visited isCall byName
          given
      next => cases member
  · intro step
    cases step with
    | passed unannotated position visited isCall byName given =>
        have indexed := parameterIndex?_eq_some_iff.mpr position
        simp only [parameterTasks, unannotated, Option.bind_some, indexed, Option.map_some,
          argumentsAt, List.mem_map, Task.follow.injEq, exists_eq_right,
          List.mem_filterMap, Option.ite_none_right_eq_some]
        exact ⟨_, mem_calls.mpr ⟨_, visited, isCall⟩, byName, given⟩

theorem mem_returnSites {function : Function} {site : ReturnSite} :
    site ∈ returnSites function ↔
      ∃ visit ∈ bodyVisits function.body, ∃ span value,
        visit.node = .stmt (.return span value) ∧
          site = ⟨visit.node, value, visit.conditional⟩ := by
  simp only [returnSites, List.mem_filterMap]
  constructor
  · rintro ⟨visit, visited, isReturn⟩
    unfold returnSite? at isReturn
    split at isReturn
    next span value isNode =>
      exact ⟨visit, visited, span, value, isNode, (Option.some.inj isReturn).symm⟩
    next => cases isReturn
  · rintro ⟨visit, visited, span, value, isNode, rfl⟩
    refine ⟨visit, visited, ?_⟩
    simp only [returnSite?, isNode]

theorem follow_mem_valueTasks {site : ReturnSite} {value : Expr} :
    Task.follow value ∈ site.valueTasks ↔ site.value = some value := by
  simp [ReturnSite.valueTasks]

theorem follow_mem_returnSiteTasks {call : Node} {reported : Bool}
    {sites : List ReturnSite} {value : Expr} :
    Task.follow value ∈ returnSiteTasks call reported sites ↔
      ∃ site ∈ sites, site.value = some value := by
  induction sites generalizing reported with
  | nil => simp [returnSiteTasks]
  | cons site rest ih =>
      cases reported with
      | true => simp [returnSiteTasks, follow_mem_valueTasks, ih]
      | false =>
          by_cases missing : site.mayBeNothing
          · simp [returnSiteTasks, missing, follow_mem_valueTasks, ih]
          · simp [returnSiteTasks, missing, follow_mem_valueTasks, ih]

theorem follow_mem_callTasks {value : Expr} {site : CallSite} {function : Function}
    (runs : calledFunction? unit site = some function) (call : Node) :
    Task.follow value ∈ callTasks unit call function ↔
      FlowStep unit (.expression site.expression) (.expression value) := by
  have noHint : Task.follow value ∉ returnHintTasks unit call function := by
    unfold returnHintTasks
    split <;> simp
  simp only [callTasks, List.mem_append, noHint, false_or, follow_mem_returnSiteTasks,
    mem_returnSites]
  constructor
  · rintro ⟨_, ⟨visit, visited, span, _, isReturn, rfl⟩, rfl⟩
    exact .returned ⟨rfl, runs⟩ visited isReturn
  · intro step
    cases step with
    | returned runs' visited isReturn =>
        cases runs'.1
        cases runs.symm.trans runs'.2
        exact ⟨_, ⟨_, visited, _, _, isReturn, rfl⟩, rfl⟩

/-- The expressions to follow for a subject are those that a step leads to. -/
theorem follow_mem_tasks {subject : Subject} (genuine : subject.Genuine unit)
    {value : Expr} :
    Task.follow value ∈ tasks unit subject ↔
      FlowStep unit subject.place (.expression value) := by
  match subject, genuine with
  | .parameter _ _, _ => exact follow_mem_parameterTasks
  | .variable _, _ => exact follow_mem_variableTasks
  | .call _ _, runs => exact follow_mem_callTasks runs _

/-! ## What is reported for a subject -/

variable {oracle : Oracle} {limit : Option Nat} {node : Node} {label : String}

theorem report_mem_returnSiteTasks {call : Node} {reported : Bool} {evidence : Evidence}
    {sites : List ReturnSite}
    (member : Task.report evidence ∈ returnSiteTasks call reported sites) :
    ∃ site ∈ sites, site.mayBeNothing = true ∧
      evidence = .nothing (site.nothingNode call) := by
  have unreported : ∀ site : ReturnSite, Task.report evidence ∉ site.valueTasks := by
    intro site
    simp [ReturnSite.valueTasks]
  induction sites generalizing reported with
  | nil => simp [returnSiteTasks] at member
  | cons site rest ih =>
      have lift {reported : Bool}
          (later : Task.report evidence ∈ returnSiteTasks call reported rest) :
          ∃ other ∈ site :: rest, other.mayBeNothing = true ∧
            evidence = .nothing (other.nothingNode call) := by
        obtain ⟨other, isSite, missing, equal⟩ := ih later
        exact ⟨other, List.mem_cons_of_mem site isSite, missing, equal⟩
      cases reported with
      | true =>
          simp only [returnSiteTasks, List.mem_append, unreported, false_or] at member
          exact lift member
      | false =>
          by_cases missing : site.mayBeNothing
          · simp only [returnSiteTasks, missing, ↓reduceIte, List.mem_cons,
              Task.report.injEq, List.mem_append, unreported, false_or] at member
            rcases member with equal | later
            · exact ⟨site, List.mem_cons_self, missing, equal⟩
            · exact lift later
          · simp only [returnSiteTasks, missing, Bool.false_eq_true, ↓reduceIte,
              List.mem_append, unreported, false_or] at member
            exact lift member

/-- A missing value is reported, if only for the first `return` that shows it. -/
theorem exists_report_mem_returnSiteTasks (call : Node) {sites : List ReturnSite}
    (missing : ∃ site ∈ sites, site.mayBeNothing = true) :
    ∃ node, Task.report (.nothing node) ∈ returnSiteTasks call false sites := by
  induction sites with
  | nil =>
      obtain ⟨_, member, _⟩ := missing
      cases member
  | cons site rest ih =>
      by_cases first : site.mayBeNothing
      · refine ⟨site.nothingNode call, ?_⟩
        simp [returnSiteTasks, first]
      · obtain ⟨other, member, missing⟩ := missing
        rcases List.mem_cons.mp member with rfl | member
        · exact absurd missing first
        · obtain ⟨node, reported⟩ := ih ⟨other, member, missing⟩
          refine ⟨node, ?_⟩
          simp only [returnSiteTasks, first, Bool.false_eq_true, ↓reduceIte]
          exact List.mem_append_right _ reported

/-- An expression that leads no further ends in the labels it is evidence for. -/
theorem ends_value_iff {value : Expr} (terminal : Terminal unit value) :
    Ends oracle limit unit (.expression value) node label ↔
      node = .expr value ∧ label ∈ (Evidence.value value).labels oracle limit unit := by
  constructor
  · intro ends
    cases ends with
    | typed _ known member => exact ⟨rfl, by simpa [Evidence.labels, known] using member⟩
    | untyped isCall _ unknown => exact ⟨rfl, by simp [Evidence.labels, unknown, isCall]⟩
    | returnHint runs => cases (terminal.2 _ runs.1).symm.trans runs.2
    | fallThrough runs => cases (terminal.2 _ runs.1).symm.trans runs.2
    | bareReturn runs => cases (terminal.2 _ runs.1).symm.trans runs.2
  · rintro ⟨rfl, member⟩
    cases known : oracle unit value with
    | some type =>
        simp only [Evidence.labels, known] at member
        exact .typed terminal known member
    | none =>
        simp only [Evidence.labels, known, Option.mem_toList, Option.map_eq_some_iff] at member
        obtain ⟨site, isCall, rfl⟩ := member
        exact .untyped isCall (terminal.2 site isCall) known

theorem ends_of_terminal {value : Expr} (terminal : subject? unit value = none)
    (labelled : label ∈ (Evidence.value value).labels oracle limit unit) :
    Ends oracle limit unit (.expression value) (.expr value) label :=
  (ends_value_iff (subject?_eq_none_iff.mp terminal)).mpr ⟨rfl, labelled⟩

theorem ends_of_report_mem_parameterTasks {declared : Parameter Expr}
    {function : Option Function} {evidence : Evidence}
    (member : Task.report evidence ∈ parameterTasks unit declared function)
    (labelled : label ∈ evidence.labels oracle limit unit) :
    Ends oracle limit unit (.parameter declared function) evidence.node label := by
  unfold parameterTasks at member
  split at member
  next hint annotated =>
    cases List.mem_singleton.mp member
    exact .parameterHint annotated labelled
  next => split at member <;> simp at member

theorem ends_of_report_mem_callTasks {site : CallSite} {function : Function}
    {evidence : Evidence} (runs : calledFunction? unit site = some function)
    (member : Task.report evidence ∈ callTasks unit (.expr site.expression) function)
    (labelled : label ∈ evidence.labels oracle limit unit) :
    Ends oracle limit unit (.expression site.expression) evidence.node label := by
  rcases List.mem_append.mp member with hinted | missing
  · unfold returnHintTasks at hinted
    split at hinted
    next hint annotated =>
      cases List.mem_singleton.mp hinted
      exact .returnHint ⟨rfl, runs⟩ annotated labelled
    next => cases hinted
  · obtain ⟨found, isSite, mayBeNothing, rfl⟩ := report_mem_returnSiteTasks missing
    obtain ⟨visit, visited, span, value, isReturn, rfl⟩ := mem_returnSites.mp isSite
    cases List.mem_singleton.mp labelled
    cases conditional : visit.conditional with
    | true =>
        simp only [Evidence.node, ReturnSite.nothingNode, ↓reduceIte]
        exact .fallThrough ⟨rfl, runs⟩ visited isReturn conditional
    | false =>
        simp only [ReturnSite.mayBeNothing, conditional, Bool.false_or,
          Option.isNone_iff_eq_none] at mayBeNothing
        subst mayBeNothing
        simp only [Evidence.node, ReturnSite.nothingNode, Bool.false_eq_true, ↓reduceIte]
        exact .bareReturn ⟨rfl, runs⟩ visited isReturn conditional

/-- What is reported for a subject is what its place ends in. -/
theorem ends_of_report_mem_tasks {subject : Subject} (genuine : subject.Genuine unit)
    {evidence : Evidence} (member : Task.report evidence ∈ tasks unit subject)
    (labelled : label ∈ evidence.labels oracle limit unit) :
    Ends oracle limit unit subject.place evidence.node label := by
  match subject, genuine with
  | .parameter _ _, _ => exact ends_of_report_mem_parameterTasks member labelled
  | .variable _, _ => simp [tasks, variableTasks] at member
  | .call _ _, runs => exact ends_of_report_mem_callTasks runs member labelled

/-- What a parameter ends in is reported for it. -/
theorem report_of_ends_parameter {declared : Parameter Expr} {function : Option Function}
    (ends : Ends oracle limit unit (.parameter declared function) node label) :
    ∃ evidence, Task.report evidence ∈ parameterTasks unit declared function ∧
      label ∈ evidence.labels oracle limit unit := by
  cases ends with
  | @parameterHint _ _ hint _ annotated member =>
      refine ⟨.hint (.param declared) (unit.slice hint.span), ?_, member⟩
      simp [parameterTasks, annotated]

/-- What a call ends in is reported for every call of the same function, wherever that
call stands. -/
theorem report_of_ends_call {call : Expr} {site : CallSite} {function : Function}
    (runs : Runs unit call site function)
    (ends : Ends oracle limit unit (.expression call) node label) (other : Node) :
    ∃ evidence, Task.report evidence ∈ callTasks unit other function ∧
      label ∈ evidence.labels oracle limit unit := by
  have runsOnly {site' : CallSite} {function' : Function}
      (runs' : Runs unit call site' function') : function' = function := by
    cases runs.1.symm.trans runs'.1
    exact Option.some.inj (runs'.2.symm.trans runs.2)
  have missing {visit : Visit} {span : Span} {value : Option Expr}
      (visited : visit ∈ bodyVisits function.body)
      (isReturn : visit.node = .stmt (.return span value))
      (shown : (visit.conditional || value.isNone) = true) :
      ∃ evidence, Task.report evidence ∈ callTasks unit other function ∧
        "None" ∈ evidence.labels oracle limit unit := by
    obtain ⟨node, reported⟩ := exists_report_mem_returnSiteTasks other
      ⟨_, mem_returnSites.mpr ⟨visit, visited, span, value, isReturn, rfl⟩, shown⟩
    exact ⟨_, List.mem_append_right _ reported, List.mem_singleton.mpr rfl⟩
  cases ends with
  | typed terminal => cases (terminal.2 _ runs.1).symm.trans runs.2
  | untyped isCall undefined =>
      cases runs.1.symm.trans isCall
      cases undefined.symm.trans runs.2
  | @returnHint _ hint _ _ _ runs' annotated member =>
      cases runsOnly runs'
      refine ⟨.hint other (unit.slice hint.span), List.mem_append_left _ ?_, member⟩
      simp [returnHintTasks, annotated]
  | fallThrough runs' visited isReturn conditional =>
      cases runsOnly runs'
      exact missing visited isReturn (by simp [conditional])
  | bareReturn runs' visited isReturn =>
      cases runsOnly runs'
      exact missing visited isReturn (by simp)

end TypeTrace.Flow
