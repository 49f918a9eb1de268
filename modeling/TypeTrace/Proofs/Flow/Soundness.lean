import TypeTrace.Oracle.Builtin
import TypeTrace.Proofs.Flow.Anchor
import TypeTrace.Proofs.Flow.Search

/-!
# Found types are derivable

Every entry of a resolution is the end of a chain of steps from the anchor's element.  The
chain that is found says more: each place it leaves is held, that is, its subject or one
with the same tasks was opened.  Soundness only needs the chain; that its places are held
is what decides which derivable types a resolution finds.
-/

namespace TypeTrace.Flow

open Syntax

/-- Subjects with the same tasks, up to where these report: the same subject, or two calls
of one function. -/
inductive Subject.Alike : Subject → Subject → Prop where
  | same {subject : Subject} : Alike subject subject
  | calls {site other : CallSite} {function : Function} :
      Alike (.call site function) (.call other function)

/-- A place whose subject, if it has one, was opened, or was opened at another call. -/
def Held (unit : SourceUnit) (element : Element) (place : Place) : Prop :=
  ∀ subject, place.subject? unit = some subject →
    ∃ known, Opened unit element known ∧ Subject.Alike known subject

/-- A step from a place that is held. -/
def HeldStep (unit : SourceUnit) (element : Element) (place next : Place) : Prop :=
  Held unit element place ∧ FlowStep unit place next

variable {unit : SourceUnit} {element : Element} {oracle : Oracle} {limit : Option Nat}

theorem chain_of_held {place next : Place}
    (chain : Relation.ReflTransGen (HeldStep unit element) place next) :
    Relation.ReflTransGen (FlowStep unit) place next :=
  Relation.ReflTransGen.mono (fun _ _ step => step.2) _ _ chain

theorem Opened.held {subject : Subject} {place : Place}
    (opened : Opened unit element subject) (leads : place.subject? unit = some subject) :
    Held unit element place := by
  intro other leadsOther
  cases leads.symm.trans leadsOther
  exact ⟨subject, opened, .same⟩

theorem Opened.held_place {subject : Subject} (opened : Opened unit element subject) :
    Held unit element subject.place :=
  opened.held (subject?_place opened.genuine)

theorem held_of_terminal {value : Expr} (terminal : subject? unit value = none) :
    Held unit element (.expression value) := by
  intro subject leads
  cases terminal.symm.trans leads

/-- From an expression that was opened a chain leads to the place of its subject. -/
theorem chain_to_subject {value : Expr} {subject : Subject}
    (leads : subject? unit value = some subject) (opened : Opened unit element subject) :
    Relation.ReflTransGen (HeldStep unit element) (.expression value) subject.place := by
  rcases subject?_cases leads with ⟨isVariable, rfl⟩ | ⟨site, function, runs, rfl⟩
  · exact .single ⟨opened.held leads, .named isVariable⟩
  · rw [Subject.place, expression_of_callSite? runs.1]

/-- What is followed for a subject that was opened is one step away from its place. -/
theorem Opened.step {subject : Subject} {next : Expr}
    (opened : Opened unit element subject)
    (member : Task.follow next ∈ tasks unit subject) :
    HeldStep unit element subject.place (.expression next) :=
  ⟨opened.held_place, (follow_mem_tasks opened.genuine).mp member⟩

/-- A chain leads to every subject that was opened. -/
theorem Opened.chain {subject : Subject} (opened : Opened unit element subject) :
    Relation.ReflTransGen (HeldStep unit element) element.subject.place subject.place := by
  rcases opened with rfl | ⟨value, entered⟩
  · exact .refl
  · have reached : Relation.ReflTransGen (HeldStep unit element) element.subject.place
        (.expression value) := by
      refine (innerSteps_works unit element).entered_within
        (fun other => Relation.ReflTransGen (HeldStep unit element) element.subject.place
          (.expression other)) (List.Subset.refl _) ?_ ?_ entered
      · intro next member
        exact .single (Opened.step (.inl rfl) member)
      · intro other known reached entered next member
        have opened : Opened unit element known := .inr ⟨other, entered⟩
        exact (reached.trans (chain_to_subject entered.1 opened)).tail (opened.step member)
    exact reached.trans (chain_to_subject entered.1 (.inr ⟨value, entered⟩))

/-- Every entry is the end of a chain through places that are held. -/
theorem held_derivation {entry : Entry}
    (member : entry ∈ flatEntries (events oracle limit unit element)) :
    entry = .ofNode unit entry.node entry.label ∧
      ∃ place, Relation.ReflTransGen (HeldStep unit element) element.subject.place place ∧
        Held unit element place ∧ Ends oracle limit unit place entry.node entry.label := by
  obtain ⟨evidence, found, label, labelled, rfl⟩ := mem_flatEntries_events.mp member
  obtain ⟨subject, opened, reported | ⟨value, rfl, followed, terminal⟩⟩ :=
    exists_opened_of_found found
  · refine ⟨rfl, subject.place, opened.chain, opened.held_place, ?_⟩
    exact ends_of_report_mem_tasks opened.genuine reported labelled
  · refine ⟨rfl, .expression value, opened.chain.tail (opened.step followed),
      held_of_terminal terminal, ?_⟩
    exact ends_of_terminal terminal labelled

/-- For every project, oracle, configuration and anchor that points at an element, each
entry of the resolution is a label at a node that is derivable from the element. -/
theorem derivable_of_mem_resolveFlat (oracle : Oracle) (config : ResolverConfig)
    {project : Project} {anchor : Anchor} {unit : SourceUnit} {element : Element}
    (located : locateAnchor project anchor = .ok (unit, element)) :
    ∃ entries, resolveFlat project oracle config anchor = .ok entries ∧
      ∀ entry ∈ entries, entry = .ofNode unit entry.node entry.label ∧
        Derivable oracle config.unionLimit unit element entry.node entry.label := by
  refine ⟨_, resolveFlat_of_located located oracle config, ?_⟩
  intro entry member
  obtain ⟨isEntry, place, chain, _, ends⟩ := held_derivation member
  exact ⟨isEntry, place, chain_of_held chain, ends⟩

/-! ## A call that may have no value -/

/-- The call `pick(True)` of `picking`. -/
def pickCall : Expr :=
  .call ⟨54, 64⟩ (.name ⟨54, 58⟩ "pick" .load) [.constant ⟨59, 63⟩ .bool] []

/-- The value that `pick` returns. -/
def pickedValue : Expr := .constant ⟨44, 45⟩ .int

/-- A function that returns only if its argument says so:
```
def pick(flag):
    if flag:
        return 1
total = pick(True)
``` -/
def picking : SourceUnit where
  path := "picking.py"
  text := "def pick(flag):\n    if flag:\n        return 1\ntotal = pick(True)\n".toList
  suite := [
    .functionDef ⟨0, 45⟩ false "pick" [⟨⟨⟨9, 13⟩, .positional, "flag", none⟩, none⟩] none []
      [.branch ⟨20, 45⟩ .ifThen (.name ⟨23, 27⟩ "flag" .load)
        [.return ⟨37, 45⟩ (some pickedValue)] []],
    .assign ⟨46, 64⟩ [.name ⟨46, 51⟩ "total" .store] pickCall]

/-- The element at `total`. -/
def pickedTotal : Element := .variable (.name ⟨46, 51⟩ "total" .store) "total"

/-- The value returned and its absence are both derivable from `total`, since both are
found. -/
theorem derivable_picking :
    locateAnchor ⟨[picking]⟩ ⟨"picking.py", 46⟩ = .ok (picking, pickedTotal) ∧
      Derivable Builtin.oracle (some 2) picking pickedTotal (.expr pickedValue) "int" ∧
      Derivable Builtin.oracle (some 2) picking pickedTotal (.expr pickCall) "None" := by
  have located :
      locateAnchor ⟨[picking]⟩ ⟨"picking.py", 46⟩ = .ok (picking, pickedTotal) := by
    with_unfolding_all rfl
  have resolved : resolveFlat ⟨[picking]⟩ Builtin.oracle {} ⟨"picking.py", 46⟩ =
      .ok [.ofNode picking (.expr pickCall) "None",
        .ofNode picking (.expr pickedValue) "int"] := by with_unfolding_all rfl
  obtain ⟨entries, found, derivable⟩ := derivable_of_mem_resolveFlat Builtin.oracle {} located
  cases found.symm.trans resolved
  refine ⟨located, ?_, ?_⟩
  · exact (derivable _ (List.mem_cons_of_mem _ List.mem_cons_self)).2
  · exact (derivable _ List.mem_cons_self).2

end TypeTrace.Flow
