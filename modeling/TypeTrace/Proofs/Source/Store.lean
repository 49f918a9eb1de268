import TypeTrace.Flow.Resolve
import TypeTrace.Oracle.Builtin
import TypeTrace.Proofs.Keyed

/-!
# Projects as stores

A project is made by adding one text after the other.  Texts that do not parse leave it as it
is.  The others put a unit under the components of a path: the unit of a path is the one that
was added last, and it stands where a unit of that path was first added (`units_history`).

A resolution asks for the unit of its anchor and for nothing else.  So it does not depend on
what was added under other paths, whenever that was.
-/

namespace TypeTrace

open TypeTrace.Syntax TypeTrace.Flow

/-- A text that is to be added under a path, and what the parser makes of it. -/
structure Addition where
  path : String
  text : String
  parsed : Except String Suite

/-- The unit that is added, if the text parses. -/
def Addition.unit? (addition : Addition) : Option SourceUnit :=
  (SourceUnit.ofParsed addition.path addition.text addition.parsed).toOption

/-- The units that some additions have added, one after the other. -/
def loaded (additions : List Addition) : List SourceUnit :=
  additions.filterMap Addition.unit?

/-- What a unit is kept under. -/
def SourceUnit.key (unit : SourceUnit) : List Path.Component :=
  Path.components unit.path

namespace Project

/-- An addition to a project. -/
def run (addition : Addition) : EStateM ParseError Project Unit :=
  Project.add addition.path addition.text addition.parsed

/-- The project after an addition, whether it went well or not. -/
def after (project : Project) (addition : Addition) : Project :=
  match (run addition).run project with
  | .ok _ next => next
  | .error _ next => next

/-- The project that some additions make, one after the other. -/
def history (additions : List Addition) : Project :=
  additions.foldl after {}

/-! ## One addition -/

/-- An addition puts the unit of its text under its path, or it fails and nothing has changed. -/
theorem run_cases (addition : Addition) (project : Project) :
    (∃ unit, addition.unit? = some unit ∧
      addition.parsed = .ok unit.suite ∧
      unit.path = addition.path ∧ unit.text = addition.text.toList ∧
      (run addition).run project = .ok () (project.insert unit)) ∨
    (∃ message, addition.unit? = none ∧ addition.parsed = .error message ∧
      (run addition).run project = .error ⟨addition.path, message⟩ project) := by
  obtain ⟨path, text, parsed⟩ := addition
  cases parsed with
  | ok suite => exact .inl ⟨_, rfl, rfl, rfl, rfl, rfl⟩
  | error message => exact .inr ⟨message, rfl, rfl, rfl⟩

theorem after_eq (project : Project) (addition : Addition) :
    project.after addition = (addition.unit?.map project.insert).getD project := by
  rcases run_cases addition project with ⟨unit, isUnit, _, _, _, isRun⟩ | ⟨_, isNone, _, isRun⟩
  · rw [after, isRun, isUnit]
    rfl
  · rw [after, isRun, isNone]
    rfl

theorem path_of_unit? {addition : Addition} {unit : SourceUnit}
    (isUnit : addition.unit? = some unit) : unit.path = addition.path := by
  rcases run_cases addition {} with ⟨_, same, _, samePath, _⟩ | ⟨_, isNone, _⟩
  · cases isUnit.symm.trans same
    exact samePath
  · cases isUnit.symm.trans isNone

/-! ## What a history leaves -/

theorem history_eq (additions : List Addition) :
    history additions = (loaded additions).foldl insert {} := by
  rw [history, loaded, List.foldl_filterMap]
  congr 1
  funext project addition
  rw [after_eq]
  cases addition.unit? with
  | none => rfl
  | some unit => rfl

theorem place_eq (unit : SourceUnit) (units : List SourceUnit) :
    place unit units = Keyed.update SourceUnit.key unit.key unit (fun _ => unit) units := by
  induction units with
  | nil => rfl
  | cons first rest ih =>
      rw [place, Keyed.update, ih]
      simp only [Path.same, decide_eq_true_eq]
      rfl

/-- The unit that came last. -/
def lastUnit (units : List SourceUnit) : SourceUnit :=
  units.getLast?.getD default

theorem lastUnit_gathers :
    Keyed.Gathers SourceUnit.key SourceUnit.key id (fun unit _ => unit)
      (fun _ units => lastUnit units) where
  first := fun _ => rfl
  next := by simp [lastUnit]
  keyed := by simp [lastUnit]

theorem units_history (additions : List Addition) :
    (history additions).units = ((loaded additions).map SourceUnit.key).eraseDups.map fun key =>
      lastUnit (Keyed.under SourceUnit.key (loaded additions) key) := by
  have placed (units : List SourceUnit) (project : Project) :
      (units.foldl insert project).units =
        units.foldl (fun cells unit => place unit cells) project.units := by
    induction units generalizing project with
    | nil => rfl
    | cons first rest ih => exact ih (project.insert first)
  rw [history_eq, placed, ← Keyed.foldl_update lastUnit_gathers]
  simp only [place_eq]
  rfl

theorem keyed_units (additions : List Addition) :
    ∀ key ∈ ((loaded additions).map SourceUnit.key).eraseDups,
      (lastUnit (Keyed.under SourceUnit.key (loaded additions) key)).key = key :=
  fun _ member => lastUnit_gathers.keyOf_under (List.mem_eraseDups.mp member)

theorem keys_history (additions : List Addition) :
    (history additions).units.map SourceUnit.key =
      ((loaded additions).map SourceUnit.key).eraseDups := by
  rw [units_history, List.map_map]
  exact (List.map_congr_left (keyed_units additions)).trans (List.map_id' _)

/-- The unit of a path is the one that was added last. -/
theorem unit?_history (additions : List Addition) (path : String) :
    (history additions).unit? path =
      ((loaded additions).filter (Path.same ·.path path)).getLast? := by
  have found := Keyed.find?_cell (keyed_units additions) (Path.components path)
  rw [← units_history] at found
  change (history additions).units.find? (SourceUnit.key · = Path.components path) =
    (Keyed.under SourceUnit.key (loaded additions) (Path.components path)).getLast?
  by_cases known : Path.components path ∈ (loaded additions).map SourceUnit.key
  · have nonempty := mt Keyed.under_eq_nil.mp (not_not_intro known)
    rw [found, if_pos (List.mem_eraseDups.mpr known), lastUnit,
      List.getLast?_eq_some_getLast nonempty]
    rfl
  · rw [found, if_neg (mt List.mem_eraseDups.mp known), Keyed.under_eq_nil.mpr known]
    rfl

theorem unit?_of_mem {additions : List Addition} {unit : SourceUnit}
    (member : unit ∈ (history additions).units) :
    (history additions).unit? unit.path = some unit := by
  rw [units_history] at member
  have found := Keyed.find?_of_mem (keyed_units additions) member
  rw [← units_history] at found
  exact found

/-! ## Questions about one path -/

theorem loaded_filter (additions : List Addition) (path : String) :
    loaded (additions.filter (Path.same ·.path path)) =
      (loaded additions).filter (Path.same ·.path path) := by
  unfold loaded
  induction additions with
  | nil => rfl
  | cons addition rest ih =>
      cases isUnit : addition.unit? with
      | none => by_cases same : Path.same addition.path path <;> simp [isUnit, same, ih]
      | some unit =>
          have samePath := path_of_unit? isUnit
          by_cases same : Path.same addition.path path <;> simp [isUnit, samePath, same, ih]

/-- The unit of a path depends on what was added under that path. -/
theorem unit?_of_filter_eq {additions others : List Addition} {path : String}
    (alike : others.filter (Path.same ·.path path) =
      additions.filter (Path.same ·.path path)) :
    (history others).unit? path = (history additions).unit? path := by
  rw [unit?_history, unit?_history, ← loaded_filter, ← loaded_filter, alike]

/-- What is answered at an anchor: the entries, and the dependency map. -/
def answers (project : Project) (oracle : Oracle) (config : ResolverConfig) (anchor : Anchor) :
    Except ResolutionError (List Entry) × Except ResolutionError DependencyGraph :=
  (resolveFlat project oracle config anchor, resolveGraph project oracle config anchor)

/-- A resolution asks a project for the unit of the anchor only. -/
theorem answers_congr {project other : Project} {anchor : Anchor}
    (alike : other.unit? anchor.path = project.unit? anchor.path)
    (oracle : Oracle) (config : ResolverConfig) :
    other.answers oracle config anchor = project.answers oracle config anchor := by
  have located : locateAnchor other anchor = locateAnchor project anchor := by
    rw [locateAnchor, locateAnchor, unitAt, unitAt, alike]
  have reported : eventsAt other oracle config anchor = eventsAt project oracle config anchor := by
    rw [eventsAt, eventsAt, located]
  rw [answers, answers, resolveFlat, resolveFlat, resolveGraph, resolveGraph, reported]

theorem filter_of_others {additions before after : List Addition} {path : String}
    (elsewhere : ∀ addition ∈ before ++ after, Path.same addition.path path = false) :
    (before ++ additions ++ after).filter (Path.same ·.path path) =
      additions.filter (Path.same ·.path path) := by
  have none {others : List Addition} (within : others ⊆ before ++ after) :
      others.filter (Path.same ·.path path) = [] := by
    rw [List.filter_eq_nil_iff]
    intro addition member
    rw [elsewhere addition (within member)]
    exact Bool.false_ne_true
  rw [List.filter_append, List.filter_append, none (List.subset_append_left _ _),
    none (List.subset_append_right _ _), List.nil_append, List.append_nil]

/-- What a history of additions leaves is a store.  An addition succeeds and puts its unit into
the project, or fails and leaves it.  The unit of a path is the last one that was put there,
and there is one unit for each path, in the order in which the paths first got one.  The answers
at an anchor are those of any project with the same unit there, so that neither a failed
addition nor those under other paths count, wherever they stand in the history. -/
theorem history_stores (additions : List Addition) :
    (∀ (addition : Addition) (project : Project),
      (∃ unit, addition.unit? = some unit ∧
        addition.parsed = .ok unit.suite ∧
        unit.path = addition.path ∧ unit.text = addition.text.toList ∧
        (run addition).run project = .ok () (project.insert unit)) ∨
      (∃ message, addition.unit? = none ∧ addition.parsed = .error message ∧
        (run addition).run project = .error ⟨addition.path, message⟩ project)) ∧
    (∀ path, (history additions).unit? path =
      ((loaded additions).filter (Path.same ·.path path)).getLast?) ∧
    (history additions).units.map (Path.components ·.path) =
      ((loaded additions).map (Path.components ·.path)).eraseDups ∧
    (∀ unit ∈ (history additions).units,
      (history additions).unit? unit.path = some unit) ∧
    (∀ (oracle : Oracle) (config : ResolverConfig) (anchor : Anchor),
      (∀ project : Project, project.unit? anchor.path = (history additions).unit? anchor.path →
        project.answers oracle config anchor =
          (history additions).answers oracle config anchor) ∧
      (∀ others : List Addition,
        others.filter (Path.same ·.path anchor.path) =
            additions.filter (Path.same ·.path anchor.path) →
          (history others).answers oracle config anchor =
            (history additions).answers oracle config anchor) ∧
      (∀ before after : List Addition,
        (∀ addition ∈ before ++ after, Path.same addition.path anchor.path = false) →
          (history (before ++ additions ++ after)).answers oracle config anchor =
            (history additions).answers oracle config anchor)) := by
  refine ⟨run_cases, unit?_history additions, keys_history additions, fun _ => unit?_of_mem, ?_⟩
  intro oracle config anchor
  refine ⟨fun _ alike => answers_congr alike oracle config, ?_, ?_⟩
  · intro others alike
    exact answers_congr (unit?_of_filter_eq alike) oracle config
  · intro before after elsewhere
    exact answers_congr (unit?_of_filter_eq (filter_of_others elsewhere)) oracle config

/-- The parameter of a function:
```
def f(x: int):
    pass
``` -/
def hintedParameter : Parameter Expr :=
  ⟨⟨6, 12⟩, .positional, "x", some (.name ⟨9, 12⟩ "int" .load)⟩

/-- The suite with the function. -/
def hintedSuite : Suite :=
  [.functionDef ⟨0, 23⟩ false "f" [⟨hintedParameter, none⟩] none []
    [.simple ⟨19, 23⟩ .pass]]

/-- A path that gets a unit, fails to get a second one and gets the function as the third,
each time written differently. -/
def rewritten : List Addition := [
  ⟨"a//m.py", "", .ok []⟩,
  ⟨"n.py", "", .ok []⟩,
  ⟨"a/m.py", "(", .error "unexpected end of file"⟩,
  ⟨"a/./m.py/", "def f(x: int):\n    pass\n", .ok hintedSuite⟩]

/-- Additions under paths that look alike. -/
def beside : List Addition := [⟨"./a/m.py", "", .ok []⟩, ⟨"b/../a/m.py", "", .ok []⟩]

/-- The function is in the place of the first unit, and the additions beside it do not count. -/
theorem rewritten_answers :
    (history rewritten).units.map (·.path) = ["a/./m.py/", "n.py"] ∧
      (history (beside ++ rewritten ++ beside)).answers Builtin.oracle {} ⟨"a/m.py", 6⟩ =
        (history rewritten).answers Builtin.oracle {} ⟨"a/m.py", 6⟩ ∧
      ((history rewritten).answers Builtin.oracle {} ⟨"a/m.py", 6⟩).1 =
        .ok [⟨0, "int", .param hintedParameter⟩] := by
  obtain ⟨_, _, _, _, frame⟩ := history_stores rewritten
  obtain ⟨only, _, framed⟩ := frame Builtin.oracle {} ⟨"a/m.py", 6⟩
  have elsewhere : ∀ addition ∈ beside ++ beside,
      Path.same addition.path "a/m.py" = false := by
    decide +kernel
  have alone := only
    ⟨[⟨"a/./m.py/", "def f(x: int):\n    pass\n".toList, hintedSuite⟩]⟩ rfl
  refine ⟨by decide +kernel, framed beside beside elsewhere, ?_⟩
  rw [← alone]
  with_unfolding_all rfl

end Project

end TypeTrace
