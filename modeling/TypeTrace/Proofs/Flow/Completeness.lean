import TypeTrace.Proofs.Flow.Soundness

/-!
# Derivable types that are found

A label is opened once, whatever it stands for.  Where two subjects share a label, the one
that is met second is passed over, and what is derivable through it alone is not found.

Nothing else is lost.  The labels that a resolution finds are those of the chains through
places that are held, and a place is held if no other subject that can be reached has its
label.  A chain to a type that is not found comes to a place that is passed over, because its
label was opened for something else (`held_or_stopped`).
-/

namespace TypeTrace.Flow

open Syntax

/-- A place that shares its label with no subject that can be reached from the element,
other than calls of the same function. -/
def Sole (unit : SourceUnit) (element : Element) (place : Place) : Prop :=
  ∀ subject, place.subject? unit = some subject →
    ∀ other known, Relation.ReflTransGen (FlowStep unit) element.subject.place other →
      other.subject? unit = some known → known.label unit = subject.label unit →
        Subject.Alike known subject

/-- A step to a place that shares its label with no other. -/
def SoleStep (unit : SourceUnit) (element : Element) (place next : Place) : Prop :=
  FlowStep unit place next ∧ Sole unit element next

/-- A place whose label was opened, but neither for its subject nor for another call of the
same function. -/
def PassedOver (unit : SourceUnit) (element : Element) (place : Place) : Prop :=
  ∃ subject, place.subject? unit = some subject ∧
    (∃ known, Opened unit element known ∧ known.label unit = subject.label unit) ∧
    ∀ known, Opened unit element known → ¬ Subject.Alike known subject

variable {unit : SourceUnit} {element : Element} {oracle : Oracle} {limit : Option Nat}

theorem Subject.Alike.exists_call {known : Subject} {site : CallSite} {function : Function}
    (alike : Subject.Alike known (.call site function)) :
    ∃ other, known = .call other function := by
  cases alike with
  | same => exact ⟨site, rfl⟩
  | @calls other => exact ⟨other, rfl⟩

/-- Subjects that are alike follow the same expressions. -/
theorem Subject.Alike.follow_mem_tasks {known subject : Subject} {value : Expr}
    (alike : Subject.Alike known subject) (genuine : subject.Genuine unit)
    (member : Task.follow value ∈ tasks unit subject) :
    Task.follow value ∈ tasks unit known := by
  cases alike with
  | same => exact member
  | @calls site other function =>
      have step := (follow_mem_callTasks genuine (.expr other.expression)).mp member
      exact (follow_mem_callTasks genuine (.expr site.expression)).mpr step

/-- Only a subject leads to an expression, and it does so by a task. -/
theorem follow_of_step {place : Place} {next : Expr}
    (step : FlowStep unit place (.expression next)) :
    ∃ subject, place.subject? unit = some subject ∧ subject.Genuine unit ∧
      Task.follow next ∈ tasks unit subject := by
  cases step with
  | @assigned _ _ _ _ _ text visited assigns paired isVariable known =>
      refine ⟨.variable text, rfl, True.intro, ?_⟩
      exact follow_mem_variableTasks.mpr (.assigned visited assigns paired isVariable known)
  | @called _ _ text visited isCall known =>
      refine ⟨.variable text, rfl, True.intro, ?_⟩
      exact follow_mem_variableTasks.mpr (.called visited isCall known)
  | @passed declared function _ _ _ _ unannotated position visited isCall byName given =>
      refine ⟨.parameter declared (some function), rfl, True.intro, ?_⟩
      apply follow_mem_parameterTasks.mpr
      exact .passed unannotated position visited isCall byName given
  | @returned call _ site function _ _ runs visited isReturn =>
      refine ⟨.call site function, subject?_of_runs runs, runs.2, ?_⟩
      apply (follow_mem_callTasks runs.2 _).mpr
      rw [expression_of_callSite? runs.1]
      exact .returned runs visited isReturn

/-- What is followed for a call is one step away from it. -/
theorem step_of_follow {value next : Expr} {subject : Subject}
    (leads : subject? unit value = some subject) (isCall : value.isVariable = false)
    (member : Task.follow next ∈ tasks unit subject) :
    FlowStep unit (.expression value) (.expression next) := by
  rcases subject?_cases leads with ⟨isVariable, _⟩ | ⟨site, function, runs, rfl⟩
  · cases isCall.symm.trans isVariable
  · rw [← expression_of_callSite? runs.1]
    exact (follow_mem_callTasks runs.2 _).mp member

/-! ## Along chains through places that are held -/

/-- An expression at the end of such a chain is settled: the subject it was reached from
has the tasks of one that was opened. -/
theorem settled_of_chain {value : Expr}
    (chain : Relation.ReflTransGen (HeldStep unit element) element.subject.place
      (.expression value)) :
    Settled unit (trace unit element) (search unit element).opened (.follow value) := by
  rcases Relation.ReflTransGen.cases_tail chain with isStart | ⟨before, _, held, step⟩
  · cases element <;> cases isStart
  · obtain ⟨subject, leads, genuine, member⟩ := follow_of_step step
    obtain ⟨known, opened, alike⟩ := held subject leads
    exact opened.settled (alike.follow_mem_tasks genuine member)

/-- Evidence that a subject that was opened reports is found. -/
theorem Opened.found_of_report {subject : Subject} {evidence : Evidence} {label : String}
    (opened : Opened unit element subject)
    (member : Task.report evidence ∈ tasks unit subject)
    (labelled : label ∈ evidence.labels oracle limit unit) :
    ∃ entry ∈ flatEntries (events oracle limit unit element), entry.label = label :=
  ⟨_, ofNode_mem_flatEntries (opened.settled member) labelled, rfl⟩

/-- What a chain through places that are held ends in is found. -/
theorem found_of_held {place : Place} {node : Node} {label : String}
    (chain : Relation.ReflTransGen (HeldStep unit element) element.subject.place place)
    (held : Held unit element place) (ends : Ends oracle limit unit place node label) :
    ∃ entry ∈ flatEntries (events oracle limit unit element), entry.label = label := by
  cases place with
  | parameter declared function =>
      obtain ⟨known, opened, alike⟩ := held _ rfl
      obtain ⟨evidence, member, labelled⟩ := report_of_ends_parameter ends
      cases alike
      exact opened.found_of_report member labelled
  | text => cases ends
  | expression value =>
      cases leads : subject? unit value with
      | none =>
          have settled := settled_of_chain chain
          simp only [Settled, leads] at settled
          have labelled := ((ends_value_iff (subject?_eq_none_iff.mp leads)).mp ends).2
          exact ⟨_, ofNode_mem_flatEntries settled labelled, rfl⟩
      | some subject =>
          rcases subject?_cases leads with ⟨isVariable, _⟩ | ⟨site, function, runs, rfl⟩
          · cases isVariable.symm.trans ends.isVariable_eq_false
          · obtain ⟨known, opened, alike⟩ := held _ leads
            obtain ⟨other, rfl⟩ := alike.exists_call
            obtain ⟨evidence, member, labelled⟩ :=
              report_of_ends_call runs ends (.expr other.expression)
            exact opened.found_of_report member labelled

/-- A step from a place that is held leads to one that is held or passed over. -/
theorem held_or_passedOver {place next : Place}
    (chain : Relation.ReflTransGen (HeldStep unit element) element.subject.place place)
    (held : Held unit element place) (step : FlowStep unit place next) :
    Held unit element next ∨ PassedOver unit element next := by
  cases next with
  | parameter => cases step
  | text =>
      cases step with
      | named isVariable =>
          left
          intro subject leads
          cases leads
          exact held _ (subject?_of_isVariable isVariable)
  | expression value =>
      cases leads : subject? unit value with
      | none => exact .inl (held_of_terminal leads)
      | some subject =>
          have settled := settled_of_chain (chain.tail ⟨held, step⟩)
          simp only [Settled, leads] at settled
          by_cases same : ∃ known, Opened unit element known ∧ Subject.Alike known subject
          · left
            intro other leadsOther
            cases leads.symm.trans leadsOther
            exact same
          · right
            refine ⟨subject, leads, exists_opened_of_mem settled, ?_⟩
            intro known opened alike
            exact same ⟨known, opened, alike⟩

/-- A chain goes through places that are held, or it comes from them to one that is passed
over. -/
theorem held_or_stopped {place : Place}
    (chain : Relation.ReflTransGen (FlowStep unit) element.subject.place place) :
    (Relation.ReflTransGen (HeldStep unit element) element.subject.place place ∧
      Held unit element place) ∨
    ∃ stop, Relation.ReflTransGen (HeldStep unit element) element.subject.place stop ∧
      PassedOver unit element stop ∧ Relation.ReflTransGen (FlowStep unit) stop place := by
  induction chain with
  | refl => exact .inl ⟨.refl, Opened.held_place (.inl rfl)⟩
  | @tail before next _ step ih =>
      rcases ih with ⟨heldChain, held⟩ | ⟨stop, heldChain, passedOver, further⟩
      · have longer := heldChain.tail ⟨held, step⟩
        rcases held_or_passedOver heldChain held step with heldNext | passedOver
        · exact .inl ⟨longer, heldNext⟩
        · exact .inr ⟨next, longer, passedOver, .refl⟩
      · exact .inr ⟨stop, heldChain, passedOver, further.tail step⟩

/-- A place that shares its label with no other is not passed over. -/
theorem Sole.not_passedOver {place : Place} (sole : Sole unit element place) :
    ¬ PassedOver unit element place := by
  rintro ⟨subject, leads, ⟨known, opened, sameLabel⟩, differs⟩
  apply differs known opened
  exact sole subject leads known.place known (chain_of_held opened.chain)
    (subject?_place opened.genuine) sameLabel

/-- A chain to places that share their label with no other goes through places that are
held: each label is opened, and for nothing else. -/
theorem held_of_sole {place : Place}
    (chain : Relation.ReflTransGen (SoleStep unit element) element.subject.place place) :
    Relation.ReflTransGen (HeldStep unit element) element.subject.place place ∧
      Held unit element place := by
  induction chain with
  | refl => exact ⟨.refl, Opened.held_place (.inl rfl)⟩
  | @tail before next _ step ih =>
      obtain ⟨heldChain, held⟩ := ih
      refine ⟨heldChain.tail ⟨held, step.1⟩, ?_⟩
      exact (held_or_passedOver heldChain held step.1).resolve_right step.2.not_passedOver

/-- For every project, oracle, configuration and anchor that points at an element, the
labels found are those of the chains through places that are held.  They include the
label of every chain to places that share their label with no other subject.  Every chain to a
label that is not found comes from places that are held to one that is passed over. -/
theorem label_found_iff_held (oracle : Oracle) (config : ResolverConfig)
    {project : Project} {anchor : Anchor} {unit : SourceUnit} {element : Element}
    (located : locateAnchor project anchor = .ok (unit, element)) :
    ∃ entries, resolveFlat project oracle config anchor = .ok entries ∧
      (∀ label, (∃ entry ∈ entries, entry.label = label) ↔
        ∃ place node,
          Relation.ReflTransGen (HeldStep unit element) element.subject.place place ∧
          Held unit element place ∧
          Ends oracle config.unionLimit unit place node label) ∧
      (∀ label place node,
        Relation.ReflTransGen (SoleStep unit element) element.subject.place place →
        Ends oracle config.unionLimit unit place node label →
        ∃ entry ∈ entries, entry.label = label) ∧
      (∀ label place node,
        Relation.ReflTransGen (FlowStep unit) element.subject.place place →
        Ends oracle config.unionLimit unit place node label →
        (¬ ∃ entry ∈ entries, entry.label = label) →
        ∃ stop, Relation.ReflTransGen (HeldStep unit element) element.subject.place stop ∧
          PassedOver unit element stop ∧ Relation.ReflTransGen (FlowStep unit) stop place) := by
  refine ⟨_, resolveFlat_of_located located oracle config, ?_, ?_, ?_⟩
  · intro label
    constructor
    · rintro ⟨entry, member, rfl⟩
      obtain ⟨_, place, chain, held, ends⟩ := held_derivation member
      exact ⟨place, entry.node, chain, held, ends⟩
    · rintro ⟨place, node, chain, held, ends⟩
      exact found_of_held chain held ends
  · intro label place node chain ends
    obtain ⟨heldChain, held⟩ := held_of_sole chain
    exact found_of_held heldChain held ends
  · intro label place node chain ends lost
    rcases held_or_stopped chain with ⟨heldChain, held⟩ | stopped
    · exact absurd (found_of_held heldChain held ends) lost
    · exact stopped

/-! ## Labels that are not shared -/

theorem picking_total_tasks : variableTasks picking "total" = [.follow pickCall] := by
  with_unfolding_all rfl

theorem picking_call_tasks :
    (subject? picking pickCall).map (tasks picking) =
      some [.report (.nothing (.expr pickCall)), .follow pickedValue] := by with_unfolding_all rfl

theorem picking_value_terminal : subject? picking pickedValue = none := by with_unfolding_all rfl

/-- The call of `pick` and the value it returns are all that can be reached from `total`. -/
theorem picking_reached {place : Place}
    (chain : Relation.ReflTransGen (FlowStep picking) pickedTotal.subject.place place) :
    place = .text "total" ∨ place = .expression pickCall ∨
      place = .expression pickedValue := by
  induction chain with
  | refl => exact .inl rfl
  | @tail before next _ step ih =>
      rcases ih with rfl | rfl | rfl
      · cases next with
        | parameter | text => cases step
        | expression value =>
            have member := follow_mem_variableTasks.mpr step
            rw [picking_total_tasks] at member
            cases List.mem_singleton.mp member
            exact .inr (.inl rfl)
      · cases next with
        | parameter => cases step
        | text => cases step with | named isVariable => cases isVariable
        | expression value =>
            obtain ⟨subject, leads, _, member⟩ := follow_of_step step
            obtain ⟨known, isKnown, isTasks⟩ := Option.map_eq_some_iff.mp picking_call_tasks
            cases isKnown.symm.trans leads
            rw [isTasks] at member
            simp only [List.mem_cons, reduceCtorEq, Task.follow.injEq, List.not_mem_nil,
              or_false, false_or] at member
            exact .inr (.inr (congrArg Place.expression member))
      · cases next with
        | parameter => cases step
        | text => cases step with | named isVariable => cases isVariable
        | expression value =>
            obtain ⟨subject, leads, _, _⟩ := follow_of_step step
            cases picking_value_terminal.symm.trans leads

/-- No label is shared on the way from `total` to the value returned. -/
theorem picking_sole_chain :
    Relation.ReflTransGen (SoleStep picking pickedTotal) pickedTotal.subject.place
      (.expression pickedValue) := by
  have isLabel : (subject? picking pickCall).map (Subject.label picking) =
      some "pick()" := by with_unfolding_all rfl
  obtain ⟨subject, leads, isTasks⟩ := Option.map_eq_some_iff.mp picking_call_tasks
  have toCall : FlowStep picking (.text "total") (.expression pickCall) := by
    apply follow_mem_variableTasks.mp
    rw [picking_total_tasks]
    exact List.mem_singleton.mpr rfl
  have toValue : FlowStep picking (.expression pickCall) (.expression pickedValue) := by
    apply step_of_follow leads rfl
    rw [isTasks]
    exact List.mem_cons_of_mem _ (List.mem_singleton.mpr rfl)
  have soleCall : Sole picking pickedTotal (.expression pickCall) := by
    intro called leadsCalled other known chain leadsKnown sameLabel
    cases leads.symm.trans leadsCalled
    rcases picking_reached chain with rfl | rfl | rfl
    · cases leadsKnown
      rw [leads, Option.map_some, ← sameLabel] at isLabel
      exact absurd (Option.some.inj isLabel) (by decide)
    · cases leads.symm.trans leadsKnown
      exact .same
    · cases picking_value_terminal.symm.trans leadsKnown
  have soleValue : Sole picking pickedTotal (.expression pickedValue) := by
    intro subject leadsValue
    cases picking_value_terminal.symm.trans leadsValue
  exact .tail (.single ⟨toCall, soleCall⟩) ⟨toValue, soleValue⟩

/-- The value returned is found, since no label on the way to it is shared. -/
theorem picking_found :
    locateAnchor ⟨[picking]⟩ ⟨"picking.py", 46⟩ = .ok (picking, pickedTotal) ∧
      Relation.ReflTransGen (SoleStep picking pickedTotal) pickedTotal.subject.place
        (.expression pickedValue) ∧
      ∃ entries, resolveFlat ⟨[picking]⟩ Builtin.oracle {} ⟨"picking.py", 46⟩ = .ok entries ∧
        ∃ entry ∈ entries, entry.label = "int" := by
  have located :
      locateAnchor ⟨[picking]⟩ ⟨"picking.py", 46⟩ = .ok (picking, pickedTotal) := by
    with_unfolding_all rfl
  have ends : Ends Builtin.oracle (some 2) picking (.expression pickedValue)
      (.expr pickedValue) "int" :=
    ends_of_terminal picking_value_terminal (by decide +kernel)
  obtain ⟨entries, resolved, _, complete, _⟩ := label_found_iff_held Builtin.oracle {} located
  exact ⟨located, picking_sole_chain, entries, resolved,
    complete "int" _ _ picking_sole_chain ends⟩

/-! ## Labels that are shared -/

/-- The parameter of `f` in `shadowed`. -/
def shadowing : Parameter Expr := ⟨⟨6, 7⟩, .positional, "x", none⟩

/-- A variable that is passed to a parameter of its own name:
```
def f(x):
    pass
x = 1
f(x)
``` -/
def shadowed : SourceUnit where
  path := "m.py"
  text := "def f(x):\n    pass\nx = 1\nf(x)\n".toList
  suite := [
    .functionDef ⟨0, 18⟩ false "f" [⟨shadowing, none⟩] none [] [.simple ⟨14, 18⟩ .pass],
    .assign ⟨19, 24⟩ [.name ⟨19, 20⟩ "x" .store] (.constant ⟨23, 24⟩ .int),
    .expr ⟨25, 29⟩ (.call ⟨25, 29⟩ (.name ⟨25, 26⟩ "f" .load) [.name ⟨27, 28⟩ "x" .load] [])]

/-- The element at that parameter. -/
def shadowingElement : Element :=
  .parameter shadowing
    (some ⟨⟨0, 18⟩, "f", [⟨shadowing, none⟩], none, [.simple ⟨14, 18⟩ .pass]⟩)

/-- The second call of `f` in `redefined`. -/
def laterCall : Expr := .call ⟨58, 61⟩ (.name ⟨58, 59⟩ "f" .load) [] []

/-- A function that is redefined between two calls of it:
```
def f():
    return 1
x = f()
def f():
    return 's'
x = f()
``` -/
def redefined : SourceUnit where
  path := "m.py"
  text := "def f():\n    return 1\nx = f()\ndef f():\n    return 's'\nx = f()\n".toList
  suite := [
    .functionDef ⟨0, 21⟩ false "f" [] none []
      [.return ⟨13, 21⟩ (some (.constant ⟨20, 21⟩ .int))],
    .assign ⟨22, 29⟩ [.name ⟨22, 23⟩ "x" .store]
      (.call ⟨26, 29⟩ (.name ⟨26, 27⟩ "f" .load) [] []),
    .functionDef ⟨30, 53⟩ false "f" [] none []
      [.return ⟨43, 53⟩ (some (.constant ⟨50, 53⟩ .str))],
    .assign ⟨54, 61⟩ [.name ⟨54, 55⟩ "x" .store] laterCall]

/-- The element at the first `x`. -/
def redefinedElement : Element := .variable (.name ⟨22, 23⟩ "x" .store) "x"

/-- The number that is passed to `f` is derivable for its parameter. -/
theorem shadowed_derivable :
    Derivable Builtin.oracle (some 2) shadowed shadowingElement
      (.expr (.constant ⟨23, 24⟩ .int)) "int" := by
  have passed : tasks shadowed shadowingElement.subject =
      [.follow (.name ⟨27, 28⟩ "x" .load)] := by with_unfolding_all rfl
  have assigned : variableTasks shadowed "x" = [.follow (.constant ⟨23, 24⟩ .int)] := by
    with_unfolding_all rfl
  have isText : shadowed.nameText (.name ⟨27, 28⟩ "x" .load) = "x" := by with_unfolding_all rfl
  have terminal : subject? shadowed (.constant ⟨23, 24⟩ .int) = none := by with_unfolding_all rfl
  have toArgument : FlowStep shadowed shadowingElement.subject.place
      (.expression (.name ⟨27, 28⟩ "x" .load)) := by
    apply (follow_mem_tasks shadowingElement.subject_genuine).mp
    rw [passed]
    exact List.mem_singleton.mpr rfl
  have toText : FlowStep shadowed (.expression (.name ⟨27, 28⟩ "x" .load)) (.text "x") :=
    isText ▸ .named rfl
  have toValue : FlowStep shadowed (.text "x") (.expression (.constant ⟨23, 24⟩ .int)) := by
    apply follow_mem_variableTasks.mp
    rw [assigned]
    exact List.mem_singleton.mpr rfl
  exact ⟨_, .tail (.tail (.single toArgument) toText) toValue,
    ends_of_terminal terminal (by decide +kernel)⟩

/-- The text that the second `f` returns is derivable for what its call is assigned to. -/
theorem redefined_derivable :
    Derivable Builtin.oracle (some 2) redefined redefinedElement
      (.expr (.constant ⟨50, 53⟩ .str)) "str" := by
  have assigned : variableTasks redefined "x" =
      [.follow (.call ⟨26, 29⟩ (.name ⟨26, 27⟩ "f" .load) [] []), .follow laterCall] := by
    with_unfolding_all rfl
  have returned : (subject? redefined laterCall).map (tasks redefined) =
      some [.follow (.constant ⟨50, 53⟩ .str)] := by with_unfolding_all rfl
  have terminal : subject? redefined (.constant ⟨50, 53⟩ .str) = none := by with_unfolding_all rfl
  obtain ⟨subject, leads, isTasks⟩ := Option.map_eq_some_iff.mp returned
  have toCall : FlowStep redefined (.text "x") (.expression laterCall) := by
    apply follow_mem_variableTasks.mp
    rw [assigned]
    exact List.mem_cons_of_mem _ (List.mem_singleton.mpr rfl)
  have toValue : FlowStep redefined (.expression laterCall)
      (.expression (.constant ⟨50, 53⟩ .str)) := by
    apply step_of_follow leads rfl
    rw [isTasks]
    exact List.mem_singleton.mpr rfl
  exact ⟨_, .tail (.single toCall) toValue, ends_of_terminal terminal (by decide +kernel)⟩

/-- Both are derivable, and neither is found: `x` is opened as the parameter and not as
the variable, and `f()` as the first call and not as the second. -/
theorem guard_loses_types :
    (locateAnchor ⟨[shadowed]⟩ ⟨"m.py", 6⟩ = .ok (shadowed, shadowingElement) ∧
      Derivable Builtin.oracle (some 2) shadowed shadowingElement
        (.expr (.constant ⟨23, 24⟩ .int)) "int" ∧
      resolveFlat ⟨[shadowed]⟩ Builtin.oracle {} ⟨"m.py", 6⟩ = .ok []) ∧
    (locateAnchor ⟨[redefined]⟩ ⟨"m.py", 22⟩ = .ok (redefined, redefinedElement) ∧
      Derivable Builtin.oracle (some 2) redefined redefinedElement
        (.expr (.constant ⟨50, 53⟩ .str)) "str" ∧
      resolveFlat ⟨[redefined]⟩ Builtin.oracle {} ⟨"m.py", 22⟩ =
        .ok [.ofNode redefined (.expr (.constant ⟨20, 21⟩ .int)) "int"]) := by
  refine ⟨⟨?_, shadowed_derivable, ?_⟩, ⟨?_, redefined_derivable, ?_⟩⟩
  all_goals with_unfolding_all rfl

end TypeTrace.Flow
