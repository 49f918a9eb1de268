import TypeTrace.Flow.Resolve
import TypeTrace.Proofs.Flow.Termination

/-!
# Queries that ask as they go

A search is over before an oracle is asked for the first time: `trace` takes no oracle, and
the labels of what it found are looked up afterwards.  A query goes the other way about.  It
carries along what it has reported and which labels it has opened, and asks the oracle and
applies the limit on the spot, before it goes on.

Both ways report the same events (`Query.run_eq`).  So what is answered in the middle of a
query has no influence on how the query goes on: oracle and configuration decide about the
batches that are emitted, and about nothing that is opened or closed.
-/

namespace TypeTrace.Flow

open Syntax

/-- What has been reported so far, and the labels that have been opened. -/
structure Query where
  reported : List Event
  opened : List String

namespace Query

/-- Open an entry. -/
def enter (query : Query) (entry : Entry) : Query :=
  ⟨query.reported ++ [.enter entry], entry.label :: query.opened⟩

/-- Close the entry opened last. -/
def exit (query : Query) : Query :=
  ⟨query.reported ++ [.exit], query.opened⟩

/-- Report a batch, unless it is empty. -/
def emit (query : Query) (batch : List Entry) : Query :=
  if batch.isEmpty then query else ⟨query.reported ++ [.emit batch], query.opened⟩

/-- Work on one task.  An expression that leads no further is looked up in the oracle. -/
def perform (oracle : Oracle) (limit : Option Nat) (unit : SourceUnit)
    (resolve : Node → Subject → Query → Query) (query : Query) : Task → Query
  | .report evidence => query.emit (evidence.batch oracle limit unit)
  | .follow value =>
      match subject? unit value with
      | none => query.emit ((Evidence.value value).batch oracle limit unit)
      | some subject =>
          if subject.label unit ∈ query.opened then
            query
          else
            resolve (.expr value) subject query

/-- Open a subject, perform its tasks one after the other and close it, with at most `depth`
subjects one inside the other. -/
def resolve (oracle : Oracle) (limit : Option Nat) (unit : SourceUnit) :
    (depth : Nat) → Node → Subject → Query → Query
  | 0, _, _, query => query
  | depth + 1, node, subject, query =>
      ((tasks unit subject).foldl
        (perform oracle limit unit (resolve oracle limit unit depth))
        (query.enter (.ofNode unit node (subject.label unit)))).exit

/-- The query for an element, from the start to the end. -/
def run (oracle : Oracle) (limit : Option Nat) (unit : SourceUnit) (element : Element) :
    Query :=
  resolve oracle limit unit (unit.visits.length + 1) element.node element.subject ⟨[], []⟩

variable {oracle : Oracle} {limit : Option Nat} {unit : SourceUnit}

/-! ## Queries and searches -/

/-- A query that has come as far as a search, with what the search found reported. -/
def after (oracle : Oracle) (limit : Option Nat) (unit : SourceUnit) (query : Query)
    (progress : Progress) : Query :=
  ⟨query.reported ++ reports oracle limit unit progress.steps, progress.opened⟩

theorem after_idle (query : Query) :
    query.after oracle limit unit (.idle query.opened) = query := by
  simp [after, Progress.idle, reports]

/-- To ask at once is to ask later. -/
theorem emit_batch_eq (query : Query) (evidence : Evidence) :
    query.emit (evidence.batch oracle limit unit) =
      query.after oracle limit unit (.single (.found evidence) query.opened) := by
  cases isBatch : evidence.batch oracle limit unit with
  | nil => simp [emit, after, Progress.single, reports, Step.event?, isBatch]
  | cons first rest =>
      simp [emit, after, Progress.single, reports, Step.event?, isBatch]

theorem after_andThen (query : Query) (first : Progress)
    (next : List String → Progress) :
    query.after oracle limit unit (first.andThen next) =
      (query.after oracle limit unit first).after oracle limit unit (next first.opened) := by
  simp [after, Progress.andThen, reports]

section Steps

variable {enter : Opening} {resolve : Node → Subject → Query → Query}

/-- The step lemma: a task of the query does what the task of the search does. -/
theorem perform_eq
    (opens : ∀ node subject query, resolve node subject query =
      query.after oracle limit unit (enter node subject query.opened))
    (query : Query) (task : Task) :
    query.perform oracle limit unit resolve task =
      query.after oracle limit unit (runTask unit enter task query.opened) := by
  cases task with
  | report evidence => exact query.emit_batch_eq evidence
  | follow value =>
      simp only [perform, runTask]
      cases subject? unit value with
      | none => exact query.emit_batch_eq (.value value)
      | some subject =>
          by_cases known : subject.label unit ∈ query.opened
          · simp only [known, if_true]
            exact query.after_idle.symm
          · simp only [known, if_false]
            exact opens (.expr value) subject query

theorem foldl_perform_eq
    (opens : ∀ node subject query, resolve node subject query =
      query.after oracle limit unit (enter node subject query.opened))
    (pending : List Task) (query : Query) :
    pending.foldl (perform oracle limit unit resolve) query =
      query.after oracle limit unit (runTasks unit enter pending query.opened) := by
  induction pending generalizing query with
  | nil => exact query.after_idle.symm
  | cons task rest ih =>
      rw [List.foldl_cons, perform_eq opens, ih, runTasks, after_andThen]
      rfl

end Steps

/-- The run lemma: however deep, a query opens what the search opens. -/
theorem resolve_eq (depth : Nat) (node : Node) (subject : Subject) (query : Query) :
    resolve oracle limit unit depth node subject query =
      query.after oracle limit unit (openSubject unit depth node subject query.opened) := by
  induction depth generalizing node subject query with
  | zero => exact query.after_idle.symm
  | succ depth ih =>
      rw [resolve, foldl_perform_eq ih]
      simp [after, enter, exit, openSubject, reports, Step.event?, Entry.ofNode]

/-- A query reports what is looked up after the search, and opens the same labels. -/
theorem run_eq (oracle : Oracle) (limit : Option Nat) (unit : SourceUnit)
    (element : Element) :
    run oracle limit unit element =
      ⟨events oracle limit unit element, (search unit element).opened⟩ := by
  rw [run, resolve_eq]
  rfl

end Query

/-! ## Openings and closings -/

/-- Whether an event opens or closes something. -/
def Event.isMove : Event → Bool
  | .emit _ => false
  | _ => true

/-- Events without what is emitted. -/
def moves (reported : List Event) : List Event :=
  reported.filter Event.isMove

/-- The event that a step is whatever is answered. -/
def Step.move? : Step → Option Event
  | .enter entry => some (.enter entry)
  | .found _ => none
  | .exit => some .exit

variable {oracle : Oracle} {limit : Option Nat} {unit : SourceUnit}

/-- What opens and closes is told by the steps alone. -/
theorem moves_reports (steps : List Step) :
    moves (reports oracle limit unit steps) = steps.filterMap Step.move? := by
  induction steps with
  | nil => rfl
  | cons step rest ih =>
      cases step with
      | enter entry => exact congrArg (.enter entry :: ·) ih
      | exit => exact congrArg (.exit :: ·) ih
      | found evidence =>
          rcases @reports_found unit oracle limit evidence rest with same | ⟨batch, added⟩
          · rw [same]
            exact ih
          · rw [added]
            exact ih

/-- The labels that have been opened are those of what was entered, the last one first. -/
theorem Works.opened_eq {pending : List Task} {opened final : List String}
    {steps : List Step} (works : Works unit pending opened steps final) :
    final = (enteredLabels (reports oracle limit unit steps)).reverse ++ opened := by
  induction works with
  | done => rfl
  | report _ ih | ending _ _ ih =>
      rw [enteredLabels_reports_found]
      exact ih
  | seen _ _ _ ih => exact ih
  | entered _ _ _ _ insideIH afterIH =>
      rw [reports_enclose, enteredLabels_enter, enteredLabels_append, enteredLabels_exit,
        afterIH, insideIH]
      simp [Entry.ofNode]

theorem search_opened_eq (oracle : Oracle) (limit : Option Nat) (unit : SourceUnit)
    (element : Element) :
    (search unit element).opened =
      (enteredLabels (events oracle limit unit element)).reverse := by
  have opened := @Works.opened_eq oracle limit _ _ _ _ _ (innerSteps_works unit element)
  have closing : enteredLabels [.exit] = [] := rfl
  rw [events_eq_enclosed, enteredLabels_enter, enteredLabels_append, closing, opened]
  simp [Entry.ofNode]

/-! ## Two queries for one element -/

/-- Queries that differ in nothing but the batches they emit. -/
structure Unsteered (first second : Query) : Prop where
  /-- The same entries are entered, and left at the same times. -/
  moves : moves first.reported = moves second.reported
  opened : first.opened = second.opened
  /-- What counts as opened is what was entered. -/
  entered : first.opened = (enteredLabels first.reported).reverse

/-- For every unit and element, any two oracles and any two configurations give queries that
differ in nothing but the batches they emit.  What they report are the events of the
resolution, and what is kept of a first batch makes no difference to the list of types. -/
theorem run_unsteered (oracle other : Oracle) (config second : ResolverConfig)
    (unit : SourceUnit) (element : Element) :
    Unsteered (Query.run oracle config.unionLimit unit element)
      (Query.run other second.unionLimit unit element) ∧
    (Query.run oracle config.unionLimit unit element).reported =
      events oracle config.unionLimit unit element ∧
    ∀ project anchor mode,
      resolveFlat project oracle { config with siblingCommit := mode } anchor =
        resolveFlat project oracle config anchor := by
  rw [Query.run_eq, Query.run_eq]
  refine ⟨⟨?_, rfl, ?_⟩, rfl, ?_⟩
  · exact (moves_reports _).trans (moves_reports _).symm
  · exact search_opened_eq oracle config.unionLimit unit element
  · intro project anchor mode
    rfl

end TypeTrace.Flow
