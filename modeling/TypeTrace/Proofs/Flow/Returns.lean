import TypeTrace.Oracle.Builtin
import TypeTrace.Proofs.Flow.Termination

/-!
# What a call reports

The returns of a function are worked through once, with a flag that says whether a missing
value has been reported.  Two kinds of `return` raise it: one that may be passed by, which is
reported at the call, and a bare one, which is reported where it stands.  Whatever the mix, the
first `return` of either kind is the only one that is reported, right before its own value is
evaluated, and everything else that happens is the evaluation of the values in order.

What is evaluated in between may itself report missing values, of other calls.  `ownEvidence`
tells these apart by the subjects that are open.
-/

namespace TypeTrace.Flow

open TypeTrace.Syntax TypeTrace.Types

/-! ## The tasks of a call -/

/-- A missing value shows in a `return` that is conditional or bare. -/
theorem ReturnSite.mayBeNothing_iff {site : ReturnSite} :
    site.mayBeNothing = true ↔ site.conditional = true ∨ site.value = none := by
  rw [ReturnSite.mayBeNothing, Bool.or_eq_true, Option.isNone_iff_eq_none]

theorem ReturnSite.mayBeNothing_eq_false_iff {site : ReturnSite} :
    site.mayBeNothing = false ↔ site.conditional = false ∧ site.value ≠ none := by
  rw [← Bool.not_eq_true, ReturnSite.mayBeNothing_iff, not_or, Bool.not_eq_true]

/-- The values of returns, to be followed in order. -/
def followValues (sites : List ReturnSite) : List Task :=
  (sites.filterMap (·.value)).map .follow

theorem followValues_cons (site : ReturnSite) (rest : List ReturnSite) :
    followValues (site :: rest) = site.valueTasks ++ followValues rest := by
  cases isValue : site.value with
  | none => simp [followValues, ReturnSite.valueTasks, isValue]
  | some value => simp [followValues, ReturnSite.valueTasks, isValue]

theorem returnSiteTasks_reported (call : Node) (sites : List ReturnSite) :
    returnSiteTasks call true sites = followValues sites := by
  induction sites with
  | nil => rfl
  | cons site rest ih => rw [returnSiteTasks, ih, followValues_cons]

theorem returnSiteTasks_unreported (call : Node) {sites : List ReturnSite}
    (present : ∀ site ∈ sites, site.mayBeNothing = false) :
    returnSiteTasks call false sites = followValues sites := by
  induction sites with
  | nil => rfl
  | cons site rest ih =>
      obtain ⟨presentFirst, presentRest⟩ := List.forall_mem_cons.mp present
      rw [returnSiteTasks, presentFirst, followValues_cons, ih presentRest]
      rfl

/-- The first `return` that shows a missing value is reported, right before its own value. -/
theorem returnSiteTasks_split (call : Node) {before after : List ReturnSite} {site : ReturnSite}
    (present : ∀ other ∈ before, other.mayBeNothing = false)
    (missing : site.mayBeNothing = true) :
    returnSiteTasks call false (before ++ site :: after) =
      followValues before ++
        .report (.nothing (site.nothingNode call)) :: followValues (site :: after) := by
  induction before with
  | nil =>
      rw [List.nil_append, returnSiteTasks, if_pos missing, returnSiteTasks_reported,
        followValues_cons]
      rfl
  | cons first rest ih =>
      obtain ⟨presentFirst, presentRest⟩ := List.forall_mem_cons.mp present
      rw [List.cons_append, returnSiteTasks, presentFirst, followValues_cons,
        List.append_assoc, ih presentRest]
      rfl

/-! ## Tasks one after the other -/

variable {unit : SourceUnit} {opening : Opening}

theorem runTasks_append (first second : List Task) (opened : List String) :
    runTasks unit opening (first ++ second) opened =
      (runTasks unit opening first opened).andThen (runTasks unit opening second) := by
  induction first generalizing opened with
  | nil => rfl
  | cons task rest ih =>
      simp [runTasks, Progress.andThen, ih]

/-! ## Evidence for the subject itself -/

/-- The evidence that is found while no subject is open but those that were at the start.
`depth` counts what has been opened since. -/
def ownEvidence : (depth : Nat) → List Step → List Evidence
  | _, [] => []
  | depth, .enter _ :: rest => ownEvidence (depth + 1) rest
  | depth, .exit :: rest => ownEvidence (depth - 1) rest
  | 0, .found evidence :: rest => evidence :: ownEvidence 0 rest
  | depth + 1, .found _ :: rest => ownEvidence (depth + 1) rest

/-- Steps that close what they open and find nothing outside of it. -/
def Contained (steps : List Step) : Prop :=
  ∀ depth rest, ownEvidence depth (steps ++ rest) = ownEvidence depth rest

/-- The node that evidence of a missing value is found at. -/
def Evidence.missingAt? : Evidence → Option Node
  | .nothing node => some node
  | _ => none

/-- The node that a task reports a missing value at. -/
def Task.missingAt? : Task → Option Node
  | .report evidence => evidence.missingAt?
  | .follow _ => none

/-- A task finds one piece of evidence, or opens a subject, or does nothing. -/
theorem runTask_cases
    (contained : ∀ node subject opened, Contained (opening node subject opened).steps)
    (task : Task) (opened : List String) :
    (∃ evidence, (runTask unit opening task opened).steps = [.found evidence] ∧
      evidence.missingAt? = task.missingAt?) ∨
    (Contained (runTask unit opening task opened).steps ∧ task.missingAt? = none) := by
  cases task with
  | report evidence => exact .inl ⟨evidence, rfl, rfl⟩
  | follow value =>
      cases leads : subject? unit value with
      | none =>
          simp only [runTask, leads]
          exact .inl ⟨.value value, rfl, rfl⟩
      | some subject =>
          by_cases known : subject.label unit ∈ opened
          · simp only [runTask, leads, known, ↓reduceIte]
            exact .inr ⟨fun _ _ => rfl, rfl⟩
          · simp only [runTask, leads, known, ↓reduceIte]
            exact .inr ⟨contained (.expr value) subject opened, rfl⟩

/-- Evidence that is found further in is not the subject's own. -/
theorem ownEvidence_runTasks_within
    (contained : ∀ node subject opened, Contained (opening node subject opened).steps)
    (pending : List Task) (opened : List String) (depth : Nat) (rest : List Step) :
    ownEvidence (depth + 1) ((runTasks unit opening pending opened).steps ++ rest) =
      ownEvidence (depth + 1) rest := by
  induction pending generalizing opened with
  | nil => rfl
  | cons task pending ih =>
      rw [runTasks, Progress.andThen, List.append_assoc]
      rcases runTask_cases contained task opened with ⟨evidence, isFound, _⟩ | ⟨within, _⟩
      · rw [isFound]
        exact ih _
      · rw [within, ih]

theorem openSubject_contained (depth : Nat) (node : Node) (subject : Subject)
    (opened : List String) : Contained (openSubject unit depth node subject opened).steps := by
  induction depth generalizing node subject opened with
  | zero =>
      intro around rest
      rfl
  | succ depth ih =>
      intro around rest
      rw [openSubject, List.cons_append, List.append_assoc]
      exact ownEvidence_runTasks_within ih _ _ around (.exit :: rest)

/-- Where steps report a missing value for the subject itself. -/
def ownMissing (steps : List Step) : List Node :=
  (ownEvidence 0 steps).filterMap Evidence.missingAt?

/-- Missing values are reported for a subject by its own tasks. -/
theorem ownMissing_runTasks
    (contained : ∀ node subject opened, Contained (opening node subject opened).steps)
    (pending : List Task) (opened : List String) :
    ownMissing (runTasks unit opening pending opened).steps =
      pending.filterMap Task.missingAt? := by
  induction pending generalizing opened with
  | nil => rfl
  | cons task pending ih =>
      rw [runTasks, Progress.andThen, ownMissing]
      rcases runTask_cases contained task opened with
        ⟨evidence, isFound, isMissing⟩ | ⟨within, isNone⟩
      · rw [isFound, List.singleton_append, ownEvidence, List.filterMap_cons,
          List.filterMap_cons, isMissing, ← ih]
        rfl
      · rw [within, List.filterMap_cons, isNone]
        exact ih _

theorem missingAt_followValues (sites : List ReturnSite) :
    (followValues sites).filterMap Task.missingAt? = [] := by
  rw [followValues, List.filterMap_map]
  exact List.filterMap_eq_nil_iff.mpr fun _ _ => rfl

theorem missingAt_returnHintTasks (call : Node) (function : Function) :
    (returnHintTasks unit call function).filterMap Task.missingAt? = [] := by
  unfold returnHintTasks
  split
  next => rfl
  next => rfl

/-- A call reports a missing value for the first `return` that shows it, if there is one. -/
theorem missingAt_callTasks (call : Node) (function : Function) :
    (callTasks unit call function).filterMap Task.missingAt? =
      (((returnSites function).find? ReturnSite.mayBeNothing).map
        (·.nothingNode call)).toList := by
  rw [callTasks, List.filterMap_append, missingAt_returnHintTasks, List.nil_append]
  cases found : (returnSites function).find? ReturnSite.mayBeNothing with
  | none =>
      have present : ∀ site ∈ returnSites function, site.mayBeNothing = false := by
        simpa using found
      rw [returnSiteTasks_unreported call present, missingAt_followValues]
      rfl
  | some site =>
      obtain ⟨missing, before, after, isSplit, present⟩ :=
        List.find?_eq_some_iff_append.mp found
      rw [isSplit, returnSiteTasks_split call (by simpa using present) missing,
        List.filterMap_append, missingAt_followValues, List.nil_append, List.filterMap_cons,
        missingAt_followValues]
      rfl

/-! ## What is reported between opening and closing a call -/

/-- The members of a function's return annotation, reported together at a call. -/
def hintEvents (limit : Option Nat) (unit : SourceUnit) (call : Node) (function : Function) :
    List Event :=
  match function.returns with
  | none => []
  | some hint =>
      let batch :=
        (unionMembers (hintText (unit.slice hint.span)) limit).map (Entry.ofNode unit call)
      if batch.isEmpty then [] else [.emit batch]

/-- The values of returns, evaluated one after the other. -/
def evaluateValues (unit : SourceUnit) (depth : Nat) (sites : List ReturnSite)
    (opened : List String) : Progress :=
  runTasks unit (openSubject unit depth) (followValues sites) opened

/-- What happens between opening a call of a function and closing it. -/
structure ScansReturns (oracle : Oracle) (limit : Option Nat) (unit : SourceUnit) (depth : Nat)
    (call : Node) (function : Function) (opened : List String) (scan : Progress) : Prop where
  /-- A missing value is reported for the call once, or not at all: for the first `return` that
  is conditional or bare, at the call if it is conditional and at the `return` if it is not. -/
  own : ownMissing scan.steps =
    (((returnSites function).find? fun site => site.conditional || site.value.isNone).map
      fun site => if site.conditional then call else site.node).toList
  /-- Without a `return` that is conditional or bare, the annotation comes first and then the
  values in order. -/
  present : (∀ site ∈ returnSites function, site.conditional = false ∧ site.value ≠ none) →
    reports oracle limit unit scan.steps =
        hintEvents limit unit call function ++
          reports oracle limit unit
            (evaluateValues unit depth (returnSites function) opened).steps ∧
      scan.opened = (evaluateValues unit depth (returnSites function) opened).opened
  /-- The missing value stands between all that was found for the returns before the first one
  that shows it, and what is found from its own value on. -/
  missing : ∀ before site after, returnSites function = before ++ site :: after →
    (∀ other ∈ before, other.conditional = false ∧ other.value ≠ none) →
    site.conditional = true ∨ site.value = none →
    ∃ earlier later, earlier = evaluateValues unit depth before opened ∧
      later = evaluateValues unit depth (site :: after) earlier.opened ∧
      reports oracle limit unit scan.steps =
        hintEvents limit unit call function ++ (reports oracle limit unit earlier.steps ++
          .emit [.ofNode unit (if site.conditional then call else site.node) "None"] ::
            reports oracle limit unit later.steps) ∧
      scan.opened = later.opened

variable {oracle : Oracle} {limit : Option Nat}

theorem reports_append (first second : List Step) :
    reports oracle limit unit (first ++ second) =
      reports oracle limit unit first ++ reports oracle limit unit second :=
  List.filterMap_append

theorem reports_found_eq (evidence : Evidence) (steps : List Step) :
    reports oracle limit unit (.found evidence :: steps) =
      (if (evidence.batch oracle limit unit).isEmpty then []
        else [.emit (evidence.batch oracle limit unit)]) ++ reports oracle limit unit steps := by
  cases isBatch : evidence.batch oracle limit unit with
  | nil => simp [reports, Step.event?, isBatch]
  | cons first rest => simp [reports, Step.event?, isBatch]

/-- The return annotation is reported before anything else. -/
theorem reports_callTasks (call : Node) (function : Function) (opened : List String) :
    reports oracle limit unit
        (runTasks unit opening (callTasks unit call function) opened).steps =
      hintEvents limit unit call function ++ reports oracle limit unit
        (runTasks unit opening (returnSiteTasks call false (returnSites function))
          opened).steps := by
  unfold callTasks hintEvents returnHintTasks
  cases function.returns with
  | none => rfl
  | some hint => exact reports_found_eq _ _

theorem opened_callTasks (call : Node) (function : Function) (opened : List String) :
    (runTasks unit opening (callTasks unit call function) opened).opened =
      (runTasks unit opening (returnSiteTasks call false (returnSites function))
        opened).opened := by
  unfold callTasks returnHintTasks
  cases function.returns with
  | none => rfl
  | some hint => rfl

theorem runTasks_scansReturns (oracle : Oracle) (limit : Option Nat) (unit : SourceUnit)
    (depth : Nat) (call : Node) (function : Function) (opened : List String) :
    ScansReturns oracle limit unit depth call function opened
      (runTasks unit (openSubject unit depth) (callTasks unit call function) opened) where
  own := by
    rw [ownMissing_runTasks (openSubject_contained depth), missingAt_callTasks]
    rfl
  present := by
    intro present
    simp only [← ReturnSite.mayBeNothing_eq_false_iff] at present
    rw [reports_callTasks, opened_callTasks, returnSiteTasks_unreported call present]
    exact ⟨rfl, rfl⟩
  missing := by
    intro before site after isSplit present missing
    simp only [← ReturnSite.mayBeNothing_eq_false_iff] at present
    rw [← ReturnSite.mayBeNothing_iff] at missing
    refine ⟨_, _, rfl, rfl, ?_⟩
    rw [reports_callTasks, opened_callTasks, isSplit, returnSiteTasks_split call present missing,
      runTasks_append]
    refine ⟨?_, rfl⟩
    rw [Progress.andThen, reports_append]
    rfl

/-- Whenever a call of a function is evaluated and its label has not been opened, the call is
opened and closed, and in between its annotation is reported, then the values of its returns are
evaluated in order, and a missing value is reported once at most: right before the value of the
first `return` that is conditional or bare. -/
theorem call_reports_missing_once (oracle : Oracle) (limit : Option Nat) {unit : SourceUnit}
    {call : Expr} {site : CallSite} {function : Function}
    (runs : Runs unit call site function) (depth : Nat) {opened : List String}
    (fresh : unit.callLabel site ∉ opened) :
    ∃ scan : Progress,
      runTask unit (openSubject unit (depth + 1)) (.follow call) opened =
        ⟨.enter (.ofNode unit (.expr call) (unit.callLabel site)) :: (scan.steps ++ [.exit]),
          scan.opened⟩ ∧
      ScansReturns oracle limit unit depth (.expr call) function
        (unit.callLabel site :: opened) scan := by
  refine ⟨_, ?_, runTasks_scansReturns oracle limit unit depth (.expr call) function _⟩
  have isLabel : (Subject.call site function).label unit = unit.callLabel site := rfl
  simp only [runTask, subject?_of_runs runs, isLabel, fresh, ↓reduceIte, openSubject, tasks,
    expression_of_callSite? runs.1]

/-! ## Functions with two ways to give nothing -/

/-- The body of a function with a conditional and a bare `return`:
```
def f(x):
    if x:
        return 1
    return
y = f(0)
``` -/
def hesitantBody : Suite := [
  .branch ⟨14, 36⟩ .ifThen (.name ⟨17, 18⟩ "x" .load)
    [.return ⟨28, 36⟩ (some (.constant ⟨35, 36⟩ .int))] [],
  .return ⟨41, 47⟩ none]

/-- The function. -/
def hesitant : Function :=
  ⟨⟨0, 47⟩, "f", [⟨⟨⟨6, 7⟩, .positional, "x", none⟩, none⟩], none, hesitantBody⟩

/-- The call of the function. -/
def hesitantCall : CallSite :=
  ⟨⟨52, 56⟩, .name ⟨52, 53⟩ "f" .load, [.constant ⟨54, 55⟩ .int], []⟩

/-- The unit with the function and its call. -/
def hesitantUnit : SourceUnit where
  path := "hesitant.py"
  text := "def f(x):\n    if x:\n        return 1\n    return\ny = f(0)\n".toList
  suite := [
    .functionDef ⟨0, 47⟩ false "f" [⟨⟨⟨6, 7⟩, .positional, "x", none⟩, none⟩] none []
      hesitantBody,
    .assign ⟨48, 56⟩ [.name ⟨48, 49⟩ "y" .store] hesitantCall.expression]

/-- The body of a function with a bare `return` in front of a conditional one:
```
def g(x):
    return
    if x:
        return 's'
z = g(0)
``` -/
def curtBody : Suite := [
  .return ⟨14, 20⟩ none,
  .branch ⟨25, 49⟩ .ifThen (.name ⟨28, 29⟩ "x" .load)
    [.return ⟨39, 49⟩ (some (.constant ⟨46, 49⟩ .str))] []]

/-- The function. -/
def curt : Function :=
  ⟨⟨0, 49⟩, "g", [⟨⟨⟨6, 7⟩, .positional, "x", none⟩, none⟩], none, curtBody⟩

/-- The call of the function. -/
def curtCall : CallSite :=
  ⟨⟨54, 58⟩, .name ⟨54, 55⟩ "g" .load, [.constant ⟨56, 57⟩ .int], []⟩

/-- The unit with the function and its call. -/
def curtUnit : SourceUnit where
  path := "curt.py"
  text := "def g(x):\n    return\n    if x:\n        return 's'\nz = g(0)\n".toList
  suite := [
    .functionDef ⟨0, 49⟩ false "g" [⟨⟨⟨6, 7⟩, .positional, "x", none⟩, none⟩] none [] curtBody,
    .assign ⟨50, 58⟩ [.name ⟨50, 51⟩ "z" .store] curtCall.expression]

/-- The missing value is reported at the call, before the value of the conditional `return`, and
the bare one adds nothing.  With the bare one in front it is reported there, and the conditional
one adds nothing. -/
theorem hesitant_reports_missing_once :
    (Runs hesitantUnit hesitantCall.expression hesitantCall hesitant ∧
      hesitantUnit.callLabel hesitantCall ∉ ["y"] ∧
      ∃ scan : Progress,
        (runTask hesitantUnit (openSubject hesitantUnit 2) (.follow hesitantCall.expression)
          ["y"]).opened = scan.opened ∧
        ownMissing scan.steps = [.expr hesitantCall.expression] ∧
        reports Builtin.oracle none hesitantUnit scan.steps =
          [.emit [.ofNode hesitantUnit (.expr hesitantCall.expression) "None"],
            .emit [.ofNode hesitantUnit (.expr (.constant ⟨35, 36⟩ .int)) "int"]]) ∧
    (Runs curtUnit curtCall.expression curtCall curt ∧
      curtUnit.callLabel curtCall ∉ ["z"] ∧
      ∃ scan : Progress,
        (runTask curtUnit (openSubject curtUnit 2) (.follow curtCall.expression)
          ["z"]).opened = scan.opened ∧
        ownMissing scan.steps = [.stmt (.return ⟨14, 20⟩ none)] ∧
        reports Builtin.oracle none curtUnit scan.steps =
          [.emit [.ofNode curtUnit (.stmt (.return ⟨14, 20⟩ none)) "None"],
            .emit [.ofNode curtUnit (.expr (.constant ⟨46, 49⟩ .str)) "str"]]) := by
  constructor
  · have runs : Runs hesitantUnit hesitantCall.expression hesitantCall hesitant :=
      ⟨rfl, by with_unfolding_all rfl⟩
    have fresh : hesitantUnit.callLabel hesitantCall ∉ ["y"] := by decide
    have sites : returnSites hesitant =
        [⟨.stmt (.return ⟨28, 36⟩ (some (.constant ⟨35, 36⟩ .int))),
            some (.constant ⟨35, 36⟩ .int), true⟩,
          ⟨.stmt (.return ⟨41, 47⟩ none), none, false⟩] := by with_unfolding_all rfl
    obtain ⟨scan, isScan, scans⟩ := call_reports_missing_once Builtin.oracle none runs 1 fresh
    refine ⟨runs, fresh, scan, by rw [isScan], ?_, ?_⟩
    · rw [scans.own, sites]
      rfl
    · obtain ⟨_, _, rfl, rfl, isReported, _⟩ :=
        scans.missing [] _ _ sites (by simp) (.inl rfl)
      rw [isReported]
      with_unfolding_all rfl
  · have runs : Runs curtUnit curtCall.expression curtCall curt := ⟨rfl, by with_unfolding_all rfl⟩
    have fresh : curtUnit.callLabel curtCall ∉ ["z"] := by decide
    have sites : returnSites curt =
        [⟨.stmt (.return ⟨14, 20⟩ none), none, false⟩,
          ⟨.stmt (.return ⟨39, 49⟩ (some (.constant ⟨46, 49⟩ .str))),
            some (.constant ⟨46, 49⟩ .str), true⟩] := by with_unfolding_all rfl
    obtain ⟨scan, isScan, scans⟩ := call_reports_missing_once Builtin.oracle none runs 1 fresh
    refine ⟨runs, fresh, scan, by rw [isScan], ?_, ?_⟩
    · rw [scans.own, sites]
      rfl
    · obtain ⟨_, _, rfl, rfl, isReported, _⟩ :=
        scans.missing [] _ _ sites (by simp) (.inr rfl)
      rw [isReported]
      with_unfolding_all rfl

end TypeTrace.Flow
