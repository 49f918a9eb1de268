import Mathlib.Data.Finset.Card
import TypeTrace.Config
import TypeTrace.Proofs.Flow.Search

/-!
# Searches end

A search opens a label once.  All labels but the first one stand in the unit, so a search
opens no more of them than the unit has, whatever the circles in it, and comes to an end by
itself: the bound on its depth is never what stops it.  It closes what it opens in the
reverse order.
-/

namespace TypeTrace.Flow

open Syntax

/-! ## Labels of a unit -/

/-- The label of an expression that is a name, an attribute chain or a call. -/
def labelOf? (unit : SourceUnit) (expression : Expr) : Option String :=
  if expression.isVariable then
    some (unit.nameText expression)
  else
    expression.callSite?.map unit.callLabel

/-- The texts of the variables and the labels of the calls of a unit, in source order. -/
def occurringLabels (unit : SourceUnit) : List String :=
  unit.visits.filterMap fun visit => visit.node.expr?.bind (labelOf? unit)

variable {unit : SourceUnit} {pending : List Task} {opened final : List String}
variable {steps : List Step} {oracle : Oracle} {limit : Option Nat} {element : Element}

theorem labelOf?_of_subject? {value : Expr} {subject : Subject}
    (leads : subject? unit value = some subject) :
    labelOf? unit value = some (subject.label unit) := by
  rcases subject?_cases leads with ⟨isVariable, rfl⟩ | ⟨site, function, runs, rfl⟩
  · simp [labelOf?, isVariable, Subject.label]
  · simp [labelOf?, isVariable_of_callSite? runs.1, runs.1, Subject.label]

theorem label_mem_occurringLabels {value : Expr} {subject : Subject}
    (visited : unit.Visited (.expr value)) (leads : subject? unit value = some subject) :
    subject.label unit ∈ occurringLabels unit := by
  obtain ⟨visit, member, isNode⟩ := visited
  refine List.mem_filterMap.mpr ⟨visit, member, ?_⟩
  simp [isNode, Node.expr?, labelOf?_of_subject? leads]

/-! ## The bound does not matter -/

/-- Tasks can be worked on in one way only. -/
theorem Works.unique {others : List Step} {last : List String}
    (works : Works unit pending opened steps final)
    (other : Works unit pending opened others last) : steps = others ∧ final = last := by
  induction works generalizing others last with
  | done =>
      cases other
      exact ⟨rfl, rfl⟩
  | report _ ih =>
      cases other with
      | report after =>
          obtain ⟨rfl, rfl⟩ := ih after
          exact ⟨rfl, rfl⟩
  | ending terminal _ ih =>
      cases other with
      | ending _ after =>
          obtain ⟨rfl, rfl⟩ := ih after
          exact ⟨rfl, rfl⟩
      | seen leads => cases terminal.symm.trans leads
      | entered leads => cases terminal.symm.trans leads
  | seen leads known _ ih =>
      cases other with
      | ending terminal => cases terminal.symm.trans leads
      | seen _ _ after => exact ih after
      | entered leadsOther fresh =>
          cases leads.symm.trans leadsOther
          exact absurd known fresh
  | entered leads fresh _ _ insideIH afterIH =>
      cases other with
      | ending terminal => cases terminal.symm.trans leads
      | seen leadsOther known =>
          cases leads.symm.trans leadsOther
          exact absurd known fresh
      | entered leadsOther _ inside after =>
          cases leads.symm.trans leadsOther
          obtain ⟨rfl, rfl⟩ := insideIH inside
          obtain ⟨rfl, rfl⟩ := afterIH after
          exact ⟨rfl, rfl⟩

theorem Opens.unique {node : Node} {subject : Subject} {progress other : Progress}
    (first : Opens unit node subject opened progress)
    (second : Opens unit node subject opened other) : progress = other := by
  obtain ⟨inner, works, isSteps⟩ := first
  obtain ⟨innerOther, worksOther, isStepsOther⟩ := second
  obtain ⟨sameInner, sameOpened⟩ := works.unique worksOther
  obtain ⟨progressSteps, progressOpened⟩ := progress
  obtain ⟨otherSteps, otherOpened⟩ := other
  simp only at isSteps isStepsOther sameOpened
  rw [isSteps, isStepsOther, sameInner, sameOpened]

/-- A larger bound makes no difference. -/
theorem openSubject_eq_search {depth : Nat} (above : unit.visits.length < depth) :
    openSubject unit depth element.node element.subject [] = search unit element := by
  have opens := openSubject_opens depth element.node element.subject []
    element.subject_genuine (Nat.lt_of_le_of_lt (length_unopened_le_visits _) above)
  exact opens.unique (search_opens unit element)

/-! ## Every opening is closed -/

/-- Events in which whatever is entered is left again, the last one entered first. -/
inductive Nested : List Event → Prop where
  | done : Nested []
  | emit {batch : List Entry} {rest : List Event} (after : Nested rest) :
      Nested (.emit batch :: rest)
  | enclose {entry : Entry} {inner rest : List Event} (inside : Nested inner)
      (after : Nested rest) : Nested (.enter entry :: (inner ++ .exit :: rest))

/-- What steps report. -/
def reports (oracle : Oracle) (limit : Option Nat) (unit : SourceUnit)
    (steps : List Step) : List Event :=
  steps.filterMap (Step.event? oracle limit unit)

/-- What is found is reported as a batch, or not at all. -/
theorem reports_found (evidence : Evidence) (steps : List Step) :
    reports oracle limit unit (.found evidence :: steps) =
        reports oracle limit unit steps ∨
      ∃ batch, reports oracle limit unit (.found evidence :: steps) =
        .emit batch :: reports oracle limit unit steps := by
  cases isEvent : Step.event? oracle limit unit (.found evidence) with
  | none => exact .inl (by simp [reports, isEvent])
  | some event =>
      have isEmit : ∃ batch, event = .emit batch := by
        simp only [Step.event?] at isEvent
        split at isEvent
        next => cases isEvent
        next => exact ⟨_, (Option.some.inj isEvent).symm⟩
      obtain ⟨batch, rfl⟩ := isEmit
      exact .inr ⟨batch, by simp [reports, isEvent]⟩

theorem reports_enclose (entry : Entry) (inner steps : List Step) :
    reports oracle limit unit (.enter entry :: (inner ++ .exit :: steps)) =
      .enter entry :: (reports oracle limit unit inner ++
        .exit :: reports oracle limit unit steps) := by
  simp [reports, Step.event?]

theorem Works.nested (works : Works unit pending opened steps final) :
    Nested (reports oracle limit unit steps) := by
  induction works with
  | done => exact .done
  | @report evidence _ _ _ steps _ ih =>
      rcases reports_found evidence steps with same | ⟨batch, added⟩
      · rw [same]
        exact ih
      · rw [added]
        exact .emit ih
  | @ending value _ _ _ steps _ _ ih =>
      rcases reports_found (.value value) steps with same | ⟨batch, added⟩
      · rw [same]
        exact ih
      · rw [added]
        exact .emit ih
  | seen _ _ _ ih => exact ih
  | entered _ _ _ _ insideIH afterIH =>
      rw [reports_enclose]
      exact .enclose insideIH afterIH

/-- The events of a resolution open the element, and close it when all that happened in
between has been closed. -/
theorem events_eq_enclosed (oracle : Oracle) (limit : Option Nat) (unit : SourceUnit)
    (element : Element) :
    events oracle limit unit element =
      .enter (.ofNode unit element.node (element.subject.label unit)) ::
        (reports oracle limit unit (innerSteps unit element) ++ [.exit]) := by
  have shape := trace_eq unit element
  simp only [events, shape]
  exact reports_enclose _ _ []

/-! ## Every label is opened once -/

/-- The label of what an event enters. -/
def Event.enteredLabel? : Event → Option String
  | .enter entry => some entry.label
  | _ => none

/-- The labels of what events enter, in order. -/
def enteredLabels (reported : List Event) : List String :=
  reported.filterMap Event.enteredLabel?

@[simp] theorem enteredLabels_enter (entry : Entry) (rest : List Event) :
    enteredLabels (.enter entry :: rest) = entry.label :: enteredLabels rest := rfl

@[simp] theorem enteredLabels_emit (batch : List Entry) (rest : List Event) :
    enteredLabels (.emit batch :: rest) = enteredLabels rest := rfl

@[simp] theorem enteredLabels_exit (rest : List Event) :
    enteredLabels (.exit :: rest) = enteredLabels rest := rfl

@[simp] theorem enteredLabels_append (before after : List Event) :
    enteredLabels (before ++ after) = enteredLabels before ++ enteredLabels after :=
  List.filterMap_append

theorem enteredLabels_reports_found (evidence : Evidence) (steps : List Step) :
    enteredLabels (reports oracle limit unit (.found evidence :: steps)) =
      enteredLabels (reports oracle limit unit steps) := by
  rcases @reports_found unit oracle limit evidence steps with same | ⟨batch, added⟩
  · rw [same]
  · rw [added, enteredLabels_emit]

/-- What tasks open was not opened before and is opened afterwards. -/
theorem Works.enteredLabels_fresh {label : String}
    (works : Works unit pending opened steps final)
    (member : label ∈ enteredLabels (reports oracle limit unit steps)) :
    label ∉ opened ∧ label ∈ final := by
  induction works with
  | done => cases member
  | report _ ih | ending _ _ ih =>
      rw [enteredLabels_reports_found] at member
      exact ih member
  | seen _ _ _ ih => exact ih member
  | entered _ fresh inside after insideIH afterIH =>
      rw [reports_enclose, enteredLabels_enter, enteredLabels_append,
        enteredLabels_exit] at member
      rcases List.mem_cons.mp member with rfl | member
      · exact ⟨fresh, after.opened_subset (inside.opened_subset List.mem_cons_self)⟩
      · rcases List.mem_append.mp member with within | later
        · obtain ⟨unopened, isOpened⟩ := insideIH within
          exact ⟨fun known => unopened (List.mem_cons_of_mem _ known),
            after.opened_subset isOpened⟩
        · obtain ⟨unopened, isOpened⟩ := afterIH later
          refine ⟨fun known => unopened ?_, isOpened⟩
          exact inside.opened_subset (List.mem_cons_of_mem _ known)

theorem Works.enteredLabels_nodup (works : Works unit pending opened steps final) :
    (enteredLabels (reports oracle limit unit steps)).Nodup := by
  induction works with
  | done => exact List.nodup_nil
  | report _ ih | ending _ _ ih =>
      rw [enteredLabels_reports_found]
      exact ih
  | seen _ _ _ ih => exact ih
  | entered _ _ inside after insideIH afterIH =>
      rw [reports_enclose, enteredLabels_enter, enteredLabels_append, enteredLabels_exit,
        List.nodup_cons, List.nodup_append]
      refine ⟨?_, insideIH, afterIH, ?_⟩
      · intro member
        rcases List.mem_append.mp member with within | later
        · exact (inside.enteredLabels_fresh within).1 List.mem_cons_self
        · exact (after.enteredLabels_fresh later).1
            (inside.opened_subset List.mem_cons_self)
      · rintro label within _ later rfl
        exact (after.enteredLabels_fresh later).1 (inside.enteredLabels_fresh within).2

theorem enteredLabels_events_nodup (oracle : Oracle) (limit : Option Nat)
    (unit : SourceUnit) (element : Element) :
    (enteredLabels (events oracle limit unit element)).Nodup := by
  have works := innerSteps_works unit element
  rw [events_eq_enclosed, enteredLabels_enter, enteredLabels_append, enteredLabels_exit,
    List.nodup_cons]
  simp only [enteredLabels, List.filterMap_nil, List.append_nil]
  refine ⟨?_, works.enteredLabels_nodup⟩
  intro member
  exact (works.enteredLabels_fresh member).1 List.mem_cons_self

/-! ## Depth -/

/-- The entries that are open after one more event. -/
def Event.onStack (stack : List Entry) : Event → List Entry
  | .enter entry => entry :: stack
  | .emit _ => stack
  | .exit => stack.tail

/-- The entries that are open after some events, the last one entered first. -/
def openEntries (reported : List Event) : List Entry :=
  reported.foldl Event.onStack []

/-- No more is open than has been entered. -/
theorem length_openEntries_le (reported : List Event) :
    (openEntries reported).length ≤ (enteredLabels reported).length := by
  have grows (stack : List Entry) : (reported.foldl Event.onStack stack).length ≤
      stack.length + (enteredLabels reported).length := by
    induction reported generalizing stack with
    | nil => simp [enteredLabels]
    | cons event rest ih =>
        have later := ih (event.onStack stack)
        rw [List.foldl_cons]
        cases event with
        | enter entry =>
            simp only [Event.onStack, List.length_cons, enteredLabels_enter] at later ⊢
            omega
        | emit batch => exact later
        | exit =>
            simp only [Event.onStack, List.length_tail, enteredLabels_exit] at later ⊢
            omega
  simpa [openEntries] using grows []

/-- Subjects are opened at expressions of the unit. -/
theorem visited_of_entered {value : Expr} {subject : Subject}
    (entered : Entered unit (innerSteps unit element) value subject) :
    unit.Visited (.expr value) := by
  refine (innerSteps_works unit element).entered_within
    (fun other => unit.Visited (.expr other)) (List.Subset.refl _) ?_ ?_ entered
  · intro next member
    exact visited_of_follow_mem_tasks element.subject_genuine member
  · intro other known _ enteredOther next member
    exact visited_of_follow_mem_tasks (genuine_of_subject? enteredOther.1) member

/-- All labels that are opened, the first one apart, stand in the unit. -/
theorem enteredLabels_events_subset (oracle : Oracle) (limit : Option Nat)
    (unit : SourceUnit) (element : Element) :
    enteredLabels (events oracle limit unit element) ⊆
      element.subject.label unit :: occurringLabels unit := by
  intro label member
  obtain ⟨event, isEvent, isLabel⟩ := List.mem_filterMap.mp member
  cases event with
  | emit | exit => cases isLabel
  | enter entry =>
      cases isLabel
      obtain ⟨step, isStep, reported⟩ := List.mem_filterMap.mp isEvent
      have isEnter : step = .enter entry := by
        cases step with
        | enter other => cases reported; rfl
        | exit => cases reported
        | found evidence =>
            simp only [Step.event?] at reported
            split at reported
            next => cases reported
            next => cases reported
      subst isEnter
      rcases enter_cases isStep with rfl | ⟨value, subject, entered, rfl⟩
      · exact List.mem_cons_self
      · exact List.mem_cons_of_mem _
          (label_mem_occurringLabels (visited_of_entered entered) entered.1)

/-- However far a resolution has come, no more is open than the unit has labels, and the
element itself. -/
theorem length_openEntries_prefix {before : List Event}
    (isPrefix : before <+: events oracle limit unit element) :
    (openEntries before).length ≤ 1 + (occurringLabels unit).toFinset.card := by
  have sublist : (enteredLabels before).Sublist
      (enteredLabels (events oracle limit unit element)) :=
    isPrefix.sublist.filterMap _
  have distinct := (enteredLabels_events_nodup oracle limit unit element).sublist sublist
  have known : (enteredLabels before).toFinset ⊆
      insert (element.subject.label unit) (occurringLabels unit).toFinset := by
    intro label member
    have entered := sublist.subset (List.mem_toFinset.mp member)
    have found := enteredLabels_events_subset oracle limit unit element entered
    simpa using found
  calc (openEntries before).length
      ≤ (enteredLabels before).length := length_openEntries_le before
    _ = (enteredLabels before).toFinset.card := (List.toFinset_card_of_nodup distinct).symm
    _ ≤ (insert (element.subject.label unit) (occurringLabels unit).toFinset).card :=
        Finset.card_le_card known
    _ ≤ (occurringLabels unit).toFinset.card + 1 := Finset.card_insert_le _ _
    _ = 1 + (occurringLabels unit).toFinset.card := Nat.add_comm _ _

/-! ## Orderly searches -/

/-- A search that ends by itself, opens no label twice, closes what it opens, and never has
more open than the unit has labels. -/
structure Orderly (oracle : Oracle) (limit : Option Nat) (unit : SourceUnit)
    (element : Element) : Prop where
  /-- The search follows the rules that know no bound, to their end. -/
  finished : Opens unit element.node element.subject [] (search unit element)
  /-- No larger bound would let it do more. -/
  unbounded : ∀ depth, unit.visits.length < depth →
    openSubject unit depth element.node element.subject [] = search unit element
  once : (enteredLabels (events oracle limit unit element)).Nodup
  matched : Nested (events oracle limit unit element)
  shallow : ∀ before, before <+: events oracle limit unit element →
    (openEntries before).length ≤ 1 + (occurringLabels unit).toFinset.card

/-- For every unit and element, and for every oracle and configuration, the search is
orderly, also where assignments and calls go round in circles. -/
theorem search_orderly (oracle : Oracle) (config : ResolverConfig) (unit : SourceUnit)
    (element : Element) : Orderly oracle config.unionLimit unit element where
  finished := search_opens unit element
  unbounded := by
    intro depth above
    exact openSubject_eq_search above
  once := enteredLabels_events_nodup oracle config.unionLimit unit element
  matched := by
    rw [events_eq_enclosed]
    exact .enclose (innerSteps_works unit element).nested .done
  shallow := by
    intro before isPrefix
    exact length_openEntries_prefix isPrefix

end TypeTrace.Flow
