import TypeTrace.Proofs.Flow.Tasks

/-!
# Searches that run to the end

`Works` is the search without a bound on how many subjects are open one inside the other:
it says which steps some tasks take and which labels are opened by then.  A search within
a bound does the same as long as the bound exceeds the number of labels that may still be
opened (`openSubject_opens`), and the bound that a search starts from always does
(`search_opens`).

Everything else about searches follows from three facts about `Works`: all tasks, those of
the opened subjects included, are settled in the end (`Works.settled`,
`Works.entered_settled`); what is found arises from some of these tasks
(`Works.found_arises`); and what is opened is followed from the tasks it started with
(`Works.entered_within`).
-/

namespace TypeTrace.Flow

open Syntax

/-- The steps that tasks take after some labels have been opened, and the labels that have
been opened when they are done. -/
inductive Works (unit : SourceUnit) :
    List Task → List String → List Step → List String → Prop where
  | done {opened : List String} : Works unit [] opened [] opened
  | report {evidence : Evidence} {rest : List Task} {opened final : List String}
      {steps : List Step} (after : Works unit rest opened steps final) :
      Works unit (.report evidence :: rest) opened (.found evidence :: steps) final
  /-- An expression that leads no further is evidence itself. -/
  | ending {value : Expr} {rest : List Task} {opened final : List String}
      {steps : List Step} (terminal : subject? unit value = none)
      (after : Works unit rest opened steps final) :
      Works unit (.follow value :: rest) opened (.found (.value value) :: steps) final
  /-- An expression whose label has been opened is passed over. -/
  | seen {value : Expr} {subject : Subject} {rest : List Task} {opened final : List String}
      {steps : List Step} (leads : subject? unit value = some subject)
      (known : subject.label unit ∈ opened) (after : Works unit rest opened steps final) :
      Works unit (.follow value :: rest) opened steps final
  | entered {value : Expr} {subject : Subject} {rest : List Task}
      {opened between final : List String} {inner steps : List Step}
      (leads : subject? unit value = some subject) (fresh : subject.label unit ∉ opened)
      (inside : Works unit (tasks unit subject) (subject.label unit :: opened) inner between)
      (after : Works unit rest between steps final) :
      Works unit (.follow value :: rest) opened
        (.enter (.ofNode unit (.expr value) (subject.label unit)) ::
          (inner ++ .exit :: steps)) final

/-- Progress that consists in opening a subject, working on its tasks and closing it. -/
def Opens (unit : SourceUnit) (node : Node) (subject : Subject) (opened : List String)
    (progress : Progress) : Prop :=
  ∃ inner, Works unit (tasks unit subject) (subject.label unit :: opened) inner
      progress.opened ∧
    progress.steps =
      .enter (.ofNode unit node (subject.label unit)) :: (inner ++ [.exit])

variable {unit : SourceUnit} {pending : List Task} {opened final : List String}
variable {steps : List Step}

theorem Works.opened_subset (works : Works unit pending opened steps final) :
    opened ⊆ final := by
  induction works with
  | done => exact List.Subset.refl _
  | report _ ih => exact ih
  | ending _ _ ih => exact ih
  | seen _ _ _ ih => exact ih
  | entered _ _ _ _ insideIH afterIH =>
      exact List.Subset.trans (List.subset_cons_self _ _)
        (List.Subset.trans insideIH afterIH)

/-! ## Labels that may still be opened -/

/-- The labels of the subjects that the expressions of a unit lead to. -/
def subjectLabels (unit : SourceUnit) : List String :=
  unit.visits.filterMap fun visit =>
    (visit.node.expr?.bind (subject? unit)).map (Subject.label unit)

/-- The labels of a unit that have not been opened. -/
def unopened (unit : SourceUnit) (opened : List String) : List String :=
  (subjectLabels unit).filter (· ∉ opened)

theorem label_mem_subjectLabels {value : Expr} {subject : Subject}
    (visited : unit.Visited (.expr value)) (leads : subject? unit value = some subject) :
    subject.label unit ∈ subjectLabels unit := by
  obtain ⟨visit, member, isNode⟩ := visited
  refine List.mem_filterMap.mpr ⟨visit, member, ?_⟩
  simp [isNode, Node.expr?, leads]

theorem length_unopened_le_visits (opened : List String) :
    (unopened unit opened).length ≤ unit.visits.length :=
  Nat.le_trans (List.length_filter_le _ _) (List.length_filterMap_le _ _)

theorem length_unopened_le {more : List String} (subset : opened ⊆ more) :
    (unopened unit more).length ≤ (unopened unit opened).length := by
  simp only [unopened, ← List.countP_eq_length_filter]
  apply List.countP_mono_left
  intro label _ absent
  simp only [decide_eq_true_eq] at absent ⊢
  exact fun member => absent (subset member)

/-- Opening a label of the unit leaves fewer to be opened. -/
theorem length_unopened_lt {label : String} (known : label ∈ subjectLabels unit)
    (fresh : label ∉ opened) :
    (unopened unit (label :: opened)).length < (unopened unit opened).length := by
  have narrower : unopened unit (label :: opened) =
      (unopened unit opened).filter (· ≠ label) := by
    simp only [unopened, List.filter_filter]
    apply List.filter_congr
    intro other _
    simp
  rw [narrower, List.length_filter_lt_length_iff_exists]
  refine ⟨label, List.mem_filter.mpr ⟨known, ?_⟩, ?_⟩
  · simpa using fresh
  · simp

/-! ## Bounded searches -/

theorem visited_of_follow_mem_tasks {subject : Subject} (genuine : subject.Genuine unit)
    {value : Expr} (member : Task.follow value ∈ tasks unit subject) :
    unit.Visited (.expr value) :=
  ((follow_mem_tasks genuine).mp member).visited

/-- Tasks whose expressions stand in the unit are worked on to the end, if subjects are
opened as they should be while labels are left. -/
theorem runTasks_works {opening : Opening} {depth : Nat}
    (opens : ∀ node subject opened, subject.Genuine unit →
      (unopened unit (subject.label unit :: opened)).length < depth →
      Opens unit node subject opened (opening node subject opened))
    (visited : ∀ value, Task.follow value ∈ pending → unit.Visited (.expr value))
    (enough : (unopened unit opened).length ≤ depth) :
    Works unit pending opened (runTasks unit opening pending opened).steps
      (runTasks unit opening pending opened).opened := by
  induction pending generalizing opened with
  | nil => exact .done
  | cons task rest ih =>
      have visitedRest : ∀ value, Task.follow value ∈ rest → unit.Visited (.expr value) := by
        intro value member
        exact visited value (List.mem_cons_of_mem task member)
      cases task with
      | report evidence => exact .report (ih visitedRest enough)
      | follow value =>
          cases leads : subject? unit value with
          | none =>
              simp only [runTasks, runTask, leads]
              exact .ending leads (ih visitedRest enough)
          | some subject =>
              by_cases known : subject.label unit ∈ opened
              · simp only [runTasks, runTask, leads, known, ↓reduceIte]
                exact .seen leads known (ih visitedRest enough)
              · have isLabel := label_mem_subjectLabels
                  (visited value List.mem_cons_self) leads
                have fewer := length_unopened_lt isLabel known
                obtain ⟨inner, inside, isSteps⟩ := opens (.expr value) subject opened
                  (genuine_of_subject? leads) (by omega)
                have stillEnough := @length_unopened_le unit opened _
                  (List.Subset.trans (List.subset_cons_self _ _) inside.opened_subset)
                simp only [runTasks, runTask, leads, known, ↓reduceIte, Progress.andThen,
                  isSteps, List.cons_append, List.append_assoc, List.nil_append]
                exact .entered leads known inside (ih visitedRest (by omega))

/-- A bound above the number of labels that are left is as good as none. -/
theorem openSubject_opens (depth : Nat) (node : Node) (subject : Subject)
    (opened : List String) (genuine : subject.Genuine unit)
    (enough : (unopened unit (subject.label unit :: opened)).length < depth) :
    Opens unit node subject opened (openSubject unit depth node subject opened) := by
  induction depth generalizing node subject opened with
  | zero => exact absurd enough (Nat.not_lt_zero _)
  | succ depth ih =>
      refine ⟨_, runTasks_works ih ?_ (Nat.le_of_lt_succ enough), rfl⟩
      intro value member
      exact visited_of_follow_mem_tasks genuine member

/-- The search from an element is never cut short. -/
theorem search_opens (unit : SourceUnit) (element : Element) :
    Opens unit element.node element.subject [] (search unit element) :=
  openSubject_opens _ _ _ _ element.subject_genuine
    (Nat.lt_succ_of_le (length_unopened_le_visits _))

/-! ## What a search has done in the end -/

/-- A subject that was opened at an expression in the course of some steps. -/
def Entered (unit : SourceUnit) (steps : List Step) (value : Expr) (subject : Subject) :
    Prop :=
  subject? unit value = some subject ∧
    Step.enter (.ofNode unit (.expr value) (subject.label unit)) ∈ steps

/-- A task that nothing is left to be done for, by the steps taken and the labels opened. -/
def Settled (unit : SourceUnit) (steps : List Step) (opened : List String) : Task → Prop
  | .report evidence => Step.found evidence ∈ steps
  | .follow value =>
      match subject? unit value with
      | none => Step.found (.value value) ∈ steps
      | some subject => subject.label unit ∈ opened

/-- Evidence that one of some tasks reports or follows to its end. -/
def Arises (unit : SourceUnit) (pending : List Task) (evidence : Evidence) : Prop :=
  Task.report evidence ∈ pending ∨
    ∃ value, evidence = .value value ∧ Task.follow value ∈ pending ∧
      subject? unit value = none

theorem entered_first {value : Expr} {subject : Subject}
    (leads : subject? unit value = some subject) :
    Entered unit (.enter (.ofNode unit (.expr value) (subject.label unit)) :: steps)
      value subject :=
  ⟨leads, List.mem_cons_self⟩

theorem Entered.mono {more : List Step} {value : Expr} {subject : Subject}
    (entered : Entered unit steps value subject) (subset : steps ⊆ more) :
    Entered unit more value subject :=
  ⟨entered.1, subset entered.2⟩

theorem Settled.mono {more : List Step} {later : List String} {task : Task}
    (settled : Settled unit steps opened task) (stepsSubset : steps ⊆ more)
    (labelsSubset : opened ⊆ later) : Settled unit more later task := by
  cases task with
  | report evidence => exact stepsSubset settled
  | follow value =>
      cases leads : subject? unit value with
      | none =>
          simp only [Settled, leads] at settled ⊢
          exact stepsSubset settled
      | some subject =>
          simp only [Settled, leads] at settled ⊢
          exact labelsSubset settled

theorem Arises.cons {task : Task} {evidence : Evidence}
    (arises : Arises unit pending evidence) : Arises unit (task :: pending) evidence := by
  rcases arises with reported | ⟨value, isValue, followed, terminal⟩
  · exact .inl (List.mem_cons_of_mem task reported)
  · exact .inr ⟨value, isValue, List.mem_cons_of_mem task followed, terminal⟩

/-- A subject is opened at the node of the step that opens it, or in one of the two runs
that come after this step. -/
theorem entered_cases {value other : Expr} {subject known : Subject}
    {inner : List Step} (leads : subject? unit value = some subject)
    (entered : Entered unit (.enter (.ofNode unit (.expr value) (subject.label unit)) ::
      (inner ++ .exit :: steps)) other known) :
    (other = value ∧ known = subject) ∨ Entered unit inner other known ∨
      Entered unit steps other known := by
  obtain ⟨leadsOther, member⟩ := entered
  simp only [List.mem_cons, List.mem_append, reduceCtorEq, false_or] at member
  rcases member with first | inside | after
  · injection first with sameEntry
    injection sameEntry with _ _ sameNode
    injection sameNode with sameValue
    subst sameValue
    exact .inl ⟨rfl, Option.some.inj (leadsOther.symm.trans leads)⟩
  · exact .inr (.inl ⟨leadsOther, inside⟩)
  · exact .inr (.inr ⟨leadsOther, after⟩)

theorem inner_subset {step : Step} {inner : List Step} :
    inner ⊆ step :: (inner ++ .exit :: steps) := by
  intro found member
  exact List.mem_cons_of_mem step (List.mem_append_left _ member)

theorem after_subset {step : Step} {inner : List Step} :
    steps ⊆ step :: (inner ++ .exit :: steps) := by
  intro found member
  exact List.mem_cons_of_mem step (List.mem_append_right _ (List.mem_cons_of_mem _ member))

namespace Works

/-- Every label that has been opened was there before or belongs to a subject that the
steps opened. -/
theorem mem_final {label : String} (works : Works unit pending opened steps final)
    (member : label ∈ final) :
    label ∈ opened ∨
      ∃ value subject, Entered unit steps value subject ∧ subject.label unit = label := by
  induction works with
  | done => exact .inl member
  | report _ ih | ending _ _ ih =>
      rcases ih member with before | ⟨value, subject, entered, isLabel⟩
      · exact .inl before
      · exact .inr ⟨value, subject, entered.mono (List.subset_cons_self _ _), isLabel⟩
  | seen _ _ _ ih => exact ih member
  | @entered value subject _ _ _ _ _ _ leads _ _ _ insideIH afterIH =>
      rcases afterIH member with before | ⟨other, known, entered, isLabel⟩
      · rcases insideIH before with before | ⟨other, known, entered, isLabel⟩
        · rcases List.mem_cons.mp before with isLabel | before
          · exact .inr ⟨value, subject, entered_first leads, isLabel.symm⟩
          · exact .inl before
        · exact .inr ⟨other, known, entered.mono inner_subset, isLabel⟩
      · exact .inr ⟨other, known, entered.mono after_subset, isLabel⟩

/-- Every step that opens something opens the subject of the expression it stands at. -/
theorem exists_entered {entry : Entry} (works : Works unit pending opened steps final)
    (member : Step.enter entry ∈ steps) :
    ∃ value subject, Entered unit steps value subject ∧
      entry = .ofNode unit (.expr value) (subject.label unit) := by
  induction works with
  | done => cases member
  | report _ ih | ending _ _ ih =>
      obtain ⟨value, subject, entered, isEntry⟩ := ih (List.mem_of_ne_of_mem (by simp) member)
      exact ⟨value, subject, entered.mono (List.subset_cons_self _ _), isEntry⟩
  | seen _ _ _ ih => exact ih member
  | @entered value subject _ _ _ _ _ _ leads _ _ _ insideIH afterIH =>
      simp only [List.mem_cons, List.mem_append, reduceCtorEq, false_or] at member
      rcases member with first | within | later
      · injection first with isEntry
        exact ⟨value, subject, entered_first leads, isEntry⟩
      · obtain ⟨other, known, entered, isEntry⟩ := insideIH within
        exact ⟨other, known, entered.mono inner_subset, isEntry⟩
      · obtain ⟨other, known, entered, isEntry⟩ := afterIH later
        exact ⟨other, known, entered.mono after_subset, isEntry⟩

/-- All tasks are settled in the end. -/
theorem settled (works : Works unit pending opened steps final) :
    ∀ task ∈ pending, Settled unit steps final task := by
  induction works with
  | done => simp
  | report _ ih =>
      intro task member
      rcases List.mem_cons.mp member with rfl | member
      · exact List.mem_cons_self
      · exact (ih task member).mono (List.subset_cons_self _ _) (List.Subset.refl _)
  | ending terminal _ ih =>
      intro task member
      rcases List.mem_cons.mp member with rfl | member
      · simp [Settled, terminal]
      · exact (ih task member).mono (List.subset_cons_self _ _) (List.Subset.refl _)
  | seen leads known after ih =>
      intro task member
      rcases List.mem_cons.mp member with rfl | member
      · simp only [Settled, leads]
        exact after.opened_subset known
      · exact ih task member
  | entered leads _ inside after _ afterIH =>
      intro task member
      rcases List.mem_cons.mp member with rfl | member
      · simp only [Settled, leads]
        exact after.opened_subset (inside.opened_subset List.mem_cons_self)
      · exact (afterIH task member).mono after_subset (List.Subset.refl _)

/-- The tasks of every subject that was opened are settled in the end, although some of
their labels were opened by others, and are only settled once those are closed. -/
theorem entered_settled {value : Expr} {subject : Subject}
    (works : Works unit pending opened steps final)
    (entered : Entered unit steps value subject) :
    ∀ task ∈ tasks unit subject, Settled unit steps final task := by
  induction works with
  | done => cases entered.2
  | report _ ih | ending _ _ ih =>
      have earlier : Entered unit _ value subject :=
        ⟨entered.1, List.mem_of_ne_of_mem (by simp) entered.2⟩
      intro task member
      exact (ih earlier task member).mono (List.subset_cons_self _ _) (List.Subset.refl _)
  | seen _ _ _ ih => exact ih entered
  | entered leads _ inside after insideIH afterIH =>
      intro task member
      rcases entered_cases leads entered with ⟨_, rfl⟩ | within | later
      · exact (inside.settled task member).mono inner_subset after.opened_subset
      · exact (insideIH within task member).mono inner_subset after.opened_subset
      · exact (afterIH later task member).mono after_subset (List.Subset.refl _)

/-- What is found arises from the tasks or from those of a subject that was opened. -/
theorem found_arises {evidence : Evidence} (works : Works unit pending opened steps final)
    (found : Step.found evidence ∈ steps) :
    Arises unit pending evidence ∨
      ∃ value subject, Entered unit steps value subject ∧
        Arises unit (tasks unit subject) evidence := by
  induction works with
  | done => cases found
  | report _ ih =>
      rcases List.mem_cons.mp found with first | later
      · cases first
        exact .inl (.inl List.mem_cons_self)
      · rcases ih later with arises | ⟨value, subject, entered, arises⟩
        · exact .inl arises.cons
        · exact .inr ⟨value, subject, entered.mono (List.subset_cons_self _ _), arises⟩
  | ending terminal _ ih =>
      rcases List.mem_cons.mp found with first | later
      · cases first
        exact .inl (.inr ⟨_, rfl, List.mem_cons_self, terminal⟩)
      · rcases ih later with arises | ⟨value, subject, entered, arises⟩
        · exact .inl arises.cons
        · exact .inr ⟨value, subject, entered.mono (List.subset_cons_self _ _), arises⟩
  | seen _ _ _ ih =>
      rcases ih found with arises | elsewhere
      · exact .inl arises.cons
      · exact .inr elsewhere
  | @entered value subject _ _ _ _ _ _ leads _ _ _ insideIH afterIH =>
      simp only [List.mem_cons, List.mem_append, reduceCtorEq, false_or] at found
      rcases found with within | later
      · rcases insideIH within with arises | ⟨other, known, entered, arises⟩
        · exact .inr ⟨value, subject, entered_first leads, arises⟩
        · exact .inr ⟨other, known, entered.mono inner_subset, arises⟩
      · rcases afterIH later with arises | ⟨other, known, entered, arises⟩
        · exact .inl arises.cons
        · exact .inr ⟨other, known, entered.mono after_subset, arises⟩

/-- A family of expressions that holds what the tasks follow, and what is followed for
each subject opened at one of its expressions, holds every expression that a subject was
opened at. -/
theorem entered_within (family : Expr → Prop) {all : List Step}
    (works : Works unit pending opened steps final) (subset : steps ⊆ all)
    (start : ∀ value, Task.follow value ∈ pending → family value)
    (follows : ∀ value subject, family value → Entered unit all value subject →
      ∀ next, Task.follow next ∈ tasks unit subject → family next)
    {value : Expr} {subject : Subject} (entered : Entered unit steps value subject) :
    family value := by
  induction works with
  | done => cases entered.2
  | report _ ih | ending _ _ ih =>
      refine ih (List.Subset.trans (List.subset_cons_self _ _) subset) ?_
        ⟨entered.1, List.mem_of_ne_of_mem (by simp) entered.2⟩
      intro next member
      exact start next (List.mem_cons_of_mem _ member)
  | seen _ _ _ ih =>
      refine ih subset ?_ entered
      intro next member
      exact start next (List.mem_cons_of_mem _ member)
  | @entered first opensFirst _ _ _ _ _ _ leads _ _ _ insideIH afterIH =>
      have holds : family first := start first List.mem_cons_self
      rcases entered_cases leads entered with ⟨rfl, _⟩ | within | later
      · exact holds
      · refine insideIH (List.Subset.trans inner_subset subset) ?_ within
        exact follows first opensFirst holds ⟨leads, subset List.mem_cons_self⟩
      · refine afterIH (List.Subset.trans after_subset subset) ?_ later
        intro next member
        exact start next (List.mem_cons_of_mem _ member)

end Works

/-! ## Entries that a search finds -/

variable {oracle : Oracle} {limit : Option Nat} {element : Element}

/-- The entries that are reported are those of the evidence that is found. -/
theorem mem_flatEntries_events {entry : Entry} :
    entry ∈ flatEntries (events oracle limit unit element) ↔
      ∃ evidence, Step.found evidence ∈ trace unit element ∧
        ∃ label ∈ evidence.labels oracle limit unit,
          entry = .ofNode unit evidence.node label := by
  have inBatch (evidence : Evidence) : entry ∈ evidence.batch oracle limit unit ↔
      ∃ label ∈ evidence.labels oracle limit unit,
        entry = .ofNode unit evidence.node label := by
    simp [Evidence.batch, eq_comm]
  simp only [flatEntries, events, List.mem_flatMap, List.mem_filterMap, ← inBatch]
  constructor
  · rintro ⟨event, ⟨step, member, isEvent⟩, isEntry⟩
    cases step with
    | enter opening =>
        cases isEvent
        cases isEntry
    | exit =>
        cases isEvent
        cases isEntry
    | found evidence =>
        simp only [Step.event?] at isEvent
        split at isEvent
        next => cases isEvent
        next =>
          cases isEvent
          exact ⟨evidence, member, isEntry⟩
  · rintro ⟨evidence, member, isEntry⟩
    refine ⟨.emit (evidence.batch oracle limit unit), ⟨.found evidence, member, ?_⟩, isEntry⟩
    simp only [Step.event?]
    split
    next empty => simp [empty] at isEntry
    next => rfl

/-- Evidence that was found has its entries among those reported. -/
theorem ofNode_mem_flatEntries {evidence : Evidence} {label : String}
    (found : Step.found evidence ∈ trace unit element)
    (labelled : label ∈ evidence.labels oracle limit unit) :
    Entry.ofNode unit evidence.node label ∈
      flatEntries (events oracle limit unit element) :=
  mem_flatEntries_events.mpr ⟨evidence, found, label, labelled, rfl⟩

/-! ## Subjects that a search opens -/

/-- What a search does between opening its element's subject and closing it. -/
def innerSteps (unit : SourceUnit) (element : Element) : List Step :=
  (trace unit element).tail.dropLast

theorem trace_eq (unit : SourceUnit) (element : Element) :
    trace unit element =
      .enter (.ofNode unit element.node (element.subject.label unit)) ::
        (innerSteps unit element ++ [.exit]) := by
  obtain ⟨inner, _, shape⟩ := search_opens unit element
  simp [innerSteps, trace, shape]

theorem innerSteps_works (unit : SourceUnit) (element : Element) :
    Works unit (tasks unit element.subject) [element.subject.label unit]
      (innerSteps unit element) (search unit element).opened := by
  obtain ⟨inner, works, shape⟩ := search_opens unit element
  have same : innerSteps unit element = inner := by simp [innerSteps, trace, shape]
  rw [same]
  exact works

theorem innerSteps_subset : innerSteps unit element ⊆ trace unit element := by
  rw [trace_eq]
  intro step member
  exact List.mem_cons_of_mem _ (List.mem_append_left _ member)

/-- A subject that the search from an element opened: the element's own, or one that was
opened at an expression. -/
def Opened (unit : SourceUnit) (element : Element) (subject : Subject) : Prop :=
  subject = element.subject ∨
    ∃ value, Entered unit (innerSteps unit element) value subject

theorem Opened.genuine {subject : Subject} (opened : Opened unit element subject) :
    subject.Genuine unit := by
  rcases opened with rfl | ⟨value, entered⟩
  · exact element.subject_genuine
  · exact genuine_of_subject? entered.1

/-- When a search is over, the tasks of every subject it opened are settled. -/
theorem Opened.settled {subject : Subject} {task : Task}
    (opened : Opened unit element subject) (member : task ∈ tasks unit subject) :
    Settled unit (trace unit element) (search unit element).opened task := by
  have works := innerSteps_works unit element
  have settled : Settled unit (innerSteps unit element) (search unit element).opened task := by
    rcases opened with rfl | ⟨value, entered⟩
    · exact works.settled task member
    · exact works.entered_settled entered task member
  exact settled.mono innerSteps_subset (List.Subset.refl _)

/-- Every label that a search opened is the label of a subject that it opened. -/
theorem exists_opened_of_mem {label : String}
    (member : label ∈ (search unit element).opened) :
    ∃ subject, Opened unit element subject ∧ subject.label unit = label := by
  rcases (innerSteps_works unit element).mem_final member with
    isRoot | ⟨value, subject, entered, isLabel⟩
  · exact ⟨element.subject, .inl rfl, (List.mem_singleton.mp isRoot).symm⟩
  · exact ⟨subject, .inr ⟨value, entered⟩, isLabel⟩

/-- Whatever a search finds arises from the tasks of a subject that it opened. -/
theorem exists_opened_of_found {evidence : Evidence}
    (found : Step.found evidence ∈ trace unit element) :
    ∃ subject, Opened unit element subject ∧ Arises unit (tasks unit subject) evidence := by
  simp only [trace_eq, List.mem_cons, reduceCtorEq, List.mem_append, List.not_mem_nil,
    or_false, false_or] at found
  rcases (innerSteps_works unit element).found_arises found with
    arises | ⟨value, subject, entered, arises⟩
  · exact ⟨element.subject, .inl rfl, arises⟩
  · exact ⟨subject, .inr ⟨value, entered⟩, arises⟩

/-- Every step that opens something opens the element's subject, or the subject of the
expression it stands at. -/
theorem enter_cases {entry : Entry} (member : Step.enter entry ∈ trace unit element) :
    entry = .ofNode unit element.node (element.subject.label unit) ∨
      ∃ value subject, Entered unit (innerSteps unit element) value subject ∧
        entry = .ofNode unit (.expr value) (subject.label unit) := by
  simp only [trace_eq, List.mem_cons, Step.enter.injEq, List.mem_append, reduceCtorEq,
    List.not_mem_nil, or_false] at member
  rcases member with isRoot | member
  · exact .inl isRoot
  · exact .inr ((innerSteps_works unit element).exists_entered member)

end TypeTrace.Flow
