import TypeTrace.Proofs.Flow.Anchor
import TypeTrace.Proofs.Flow.Builder

/-!
# The list and the map of one resolution

The list of entries and the dependency map are two accounts of the same events.  The map
numbers everything that is entered or emitted; the list holds what is emitted.  `Mirrors`
says how a map that is being built relates to the events so far, and is kept by every
event.  From it follows what a finished list and a finished map have in common
(`Agreement`).
-/

namespace TypeTrace.Flow

/-- How an entry got its number. -/
inductive Origin where
  | entered
  | emitted
  deriving DecidableEq

/-- The entries that an event numbers, each with how it got its number. -/
def Event.numbered : Event → List (Origin × Entry)
  | .enter entry => [(.entered, entry)]
  | .emit batch => batch.map (.emitted, ·)
  | .exit => []

/-- Everything that events number, in the order of the numbers. -/
def arena (reported : List Event) : List (Origin × Entry) :=
  reported.flatMap Event.numbered

/-- What a list of entries and a dependency map have in common when they are two accounts
of the same events. -/
structure Agreement (mode : SiblingCommit) (reported : List Event) (entries : List Entry)
    (graph : DependencyGraph) : Prop where
  /-- The map numbers what was entered and what was emitted. -/
  numbered : graph.entries.toList = (arena reported).map (·.2)
  /-- The list holds what was emitted, in the order of the numbers. -/
  emitted : entries = ((arena reported).filter (·.1 = .emitted)).map (·.2)
  /-- A child was entered, or it was emitted and is on the list. -/
  children : ∀ child ∈ graph.values,
    (arena reported)[child]? = some (.entered, graph.entry child) ∨
      ((arena reported)[child]? = some (.emitted, graph.entry child) ∧
        graph.entry child ∈ entries)
  /-- If all siblings are kept, no line and label of the list is missing from the map. -/
  covered : mode = .all → ∀ entry ∈ entries, ∃ child ∈ graph.values,
    (graph.entry child).line = entry.line ∧ (graph.entry child).label = entry.label
  /-- If nothing was found under the root, nothing was found. -/
  silent : graph.children graph.root = [] → entries = []

theorem flatEntries_append (before after : List Event) :
    flatEntries (before ++ after) = flatEntries before ++ flatEntries after := by
  simp [flatEntries]

theorem Event.entries_eq_emitted (event : Event) :
    event.entries = (event.numbered.filter (·.1 = .emitted)).map (·.2) := by
  cases event with
  | enter entry => simp [entries, numbered]
  | emit batch =>
      rw [numbered, List.filter_eq_self.mpr (by simp)]
      simp [entries, Function.comp_def]
  | exit => rfl

theorem flatEntries_eq_emitted (reported : List Event) :
    flatEntries reported = ((arena reported).filter (·.1 = .emitted)).map (·.2) := by
  simp only [flatEntries, arena, List.filter_flatMap, List.map_flatMap]
  congr
  funext event
  exact event.entries_eq_emitted

/-! ## What every event keeps -/

/-- How a map that is being built relates to the events so far, of which the first opened
the root. -/
structure Mirrors (mode : SiblingCommit) (reported : List Event) (builder : GraphBuilder) :
    Prop where
  numbered : builder.entries.toList = (arena reported).map (·.2)
  rooted : builder.root = some 0
  isOpen : builder.stack ≠ []
  bounded : ∀ key child, builder.edges.Leads key child → child < builder.entries.size
  covered : mode = .all → ∀ entry ∈ flatEntries reported, ∃ key child,
    builder.edges.Leads key child ∧ (builder.entry child).sameSite entry = true
  /-- As long as the root has no children nothing has been recorded at all. -/
  quiet : builder.edges.children 0 = [] →
    builder.edges = [] ∧ builder.stack = [0] ∧ flatEntries reported = []

variable {mode : SiblingCommit} {reported : List Event} {builder : GraphBuilder}

namespace Mirrors

theorem start (mode : SiblingCommit) (entry : Entry) :
    Mirrors mode [.enter entry] (GraphBuilder.run mode [.enter entry]) := by
  constructor
  · rfl
  · rfl
  · simp [GraphBuilder.run, GraphBuilder.step, GraphBuilder.enter]
  · rintro key child ⟨children, member, _⟩
    cases member
  · intro _ other member
    cases member
  · intro _
    exact ⟨rfl, rfl, rfl⟩

variable {batch : List Entry}

theorem size_eq (mirrors : Mirrors mode reported builder) :
    builder.entries.size = (arena reported).length := by
  have lengths := congrArg List.length mirrors.numbered
  simpa using lengths

theorem bounded_record (mirrors : Mirrors mode reported builder) {key child : Nat}
    (leads : (builder.emit mode batch).edges.Leads key child) :
    child < (builder.emit mode batch).entries.size := by
  simp only [GraphBuilder.emit, GraphBuilder.commit_entries, GraphBuilder.size_allocate]
  rcases GraphBuilder.leads_of_leads_commit leads with before | isNew
  · have bound := mirrors.bounded key child before
    omega
  · simp only [GraphBuilder.freshIds, List.mem_range'_1] at isNew
    omega

theorem covered_record (mirrors : Mirrors .all reported builder) {entry : Entry}
    (member : entry ∈ flatEntries reported ∨ entry ∈ batch) :
    ∃ key child, (builder.emit .all batch).edges.Leads key child ∧
      ((builder.emit .all batch).entry child).sameSite entry = true := by
  simp only [GraphBuilder.emit, GraphBuilder.commit_entry]
  rcases member with before | isNew
  · obtain ⟨key, child, leads, isLike⟩ := mirrors.covered rfl entry before
    refine ⟨key, child, GraphBuilder.leads_commit leads, ?_⟩
    rw [GraphBuilder.entry_allocate (mirrors.bounded key child leads)]
    exact isLike
  · obtain ⟨id, fresh, isEntry⟩ := @GraphBuilder.exists_fresh_entry builder batch entry isNew
    have isOpen : (builder.allocate batch).stack ≠ [] := mirrors.isOpen
    obtain ⟨key, child, leads, isLike⟩ := GraphBuilder.exists_like_commit isOpen fresh
    rw [isEntry] at isLike
    exact ⟨key, child, leads, isLike⟩

/-- Whatever is recorded, the root has children afterwards. -/
theorem loud_record (mirrors : Mirrors mode reported builder) (given : batch ≠ []) :
    (builder.emit mode batch).edges.children 0 ≠ [] := by
  by_cases none : builder.edges.children 0 = []
  · obtain ⟨noEdges, isTop, _⟩ := mirrors.quiet none
    refine @GraphBuilder.children_commit_of_no_edges _ _ _ 0 [] noEdges isTop ?_
    simpa [GraphBuilder.freshIds] using given
  · exact GraphBuilder.children_commit_ne_nil none

theorem emit (mirrors : Mirrors mode reported builder) (given : batch ≠ []) :
    Mirrors mode (reported ++ [.emit batch]) (builder.emit mode batch) where
  numbered := by
    simp [GraphBuilder.emit, mirrors.numbered, arena, Event.numbered, Function.comp_def]
  rooted := by
    simpa [GraphBuilder.emit, GraphBuilder.allocate] using mirrors.rooted
  isOpen := by
    simpa [GraphBuilder.emit, GraphBuilder.allocate] using mirrors.isOpen
  bounded := fun _ _ leads => mirrors.bounded_record leads
  covered := by
    rintro rfl entry member
    rw [flatEntries_append] at member
    apply mirrors.covered_record
    simpa [flatEntries, Event.entries] using member
  quiet := fun none => absurd none (mirrors.loud_record given)

/-- Entering is recording an entry by itself and opening it. -/
theorem enter_eq (mirrors : Mirrors mode reported builder) (entry : Entry) :
    builder.enter mode entry =
      { builder.emit mode [entry] with
        stack := builder.entries.size :: builder.stack } := by
  have unchanged : ({ builder.allocate [entry] with
      root := builder.root.or (some builder.entries.size) } : GraphBuilder) =
      builder.allocate [entry] := by
    rw [mirrors.rooted]
    exact congrArg (fun root => ({ builder.allocate [entry] with root := root } : GraphBuilder))
      mirrors.rooted.symm
  simp only [GraphBuilder.enter, unchanged, GraphBuilder.emit, GraphBuilder.freshIds,
    List.length_singleton, List.range'_one]
  congr 1
  simp [GraphBuilder.allocate]

theorem enter (mirrors : Mirrors mode reported builder) (entry : Entry) :
    Mirrors mode (reported ++ [.enter entry]) (builder.enter mode entry) := by
  have single : [entry] ≠ [] := List.cons_ne_nil entry []
  rw [mirrors.enter_eq entry]
  constructor
  · simp [GraphBuilder.emit, mirrors.numbered, arena, Event.numbered]
  · simpa [GraphBuilder.emit, GraphBuilder.allocate] using mirrors.rooted
  · simp
  · intro key child leads
    exact mirrors.bounded_record leads
  · rintro rfl other member
    rw [flatEntries_append] at member
    apply mirrors.covered_record
    exact .inl (by simpa [flatEntries, Event.entries] using member)
  · intro none
    exact absurd none (mirrors.loud_record single)

theorem exit (mirrors : Mirrors mode reported builder) :
    Mirrors mode (reported ++ [.exit]) builder.exit := by
  have flat : flatEntries (reported ++ [.exit]) = flatEntries reported := by
    simp [flatEntries, Event.entries]
  obtain ⟨stack, frame, isOpen, single⟩ := GraphBuilder.exit_frame mirrors.isOpen
  rw [frame]
  constructor
  · simp [mirrors.numbered, arena, Event.numbered]
  · exact mirrors.rooted
  · exact isOpen
  · exact mirrors.bounded
  · rw [flat]
    exact mirrors.covered
  · rw [flat]
    intro none
    obtain ⟨noEdges, isTop, nothing⟩ := mirrors.quiet none
    exact ⟨noEdges, single 0 isTop, nothing⟩

/-- The step lemma: an event keeps the map in line with the events. -/
theorem step {event : Event} (mirrors : Mirrors mode reported builder)
    (given : ∀ batch, event = .emit batch → batch ≠ []) :
    Mirrors mode (reported ++ [event]) (builder.step mode event) := by
  cases event with
  | enter entry => exact mirrors.enter entry
  | emit batch => exact mirrors.emit (given batch rfl)
  | exit => exact mirrors.exit

theorem steps {later : List Event} (mirrors : Mirrors mode reported builder)
    (given : ∀ batch, .emit batch ∈ later → batch ≠ []) :
    Mirrors mode (reported ++ later) (later.foldl (GraphBuilder.step mode) builder) := by
  induction later generalizing reported builder with
  | nil => simpa using mirrors
  | cons event rest ih =>
      have next := @step _ _ _ event mirrors fun batch isEmit =>
        given batch (isEmit ▸ List.mem_cons_self)
      have run := ih next fun batch member => given batch (List.mem_cons_of_mem event member)
      simpa using run

/-! ## Finished maps -/

theorem exists_numbered (mirrors : Mirrors mode reported builder) {id : Nat}
    (bound : id < builder.entries.size) :
    ∃ origin, (arena reported)[id]? = some (origin, builder.entry id) := by
  rw [mirrors.size_eq] at bound
  have found := List.getElem?_eq_getElem bound
  refine ⟨(arena reported)[id].1, ?_⟩
  rw [GraphBuilder.entry_eq_getElem?, mirrors.numbered, List.getElem?_map, found]
  rfl

theorem agreement (mirrors : Mirrors mode reported builder) :
    Agreement mode reported (flatEntries reported) ⟨builder.entries, builder.edges, 0⟩ where
  numbered := mirrors.numbered
  emitted := flatEntries_eq_emitted reported
  children := by
    intro child member
    obtain ⟨key, leads⟩ := Edges.mem_values_iff.mp member
    obtain ⟨origin, found⟩ := mirrors.exists_numbered (mirrors.bounded key child leads)
    cases origin with
    | entered => exact .inl found
    | emitted =>
        refine .inr ⟨found, ?_⟩
        rw [flatEntries_eq_emitted]
        have inArena := List.mem_of_getElem? found
        exact List.mem_map.mpr ⟨_, List.mem_filter.mpr ⟨inArena, by simp⟩, rfl⟩
  covered := by
    intro all entry member
    obtain ⟨key, child, leads, isLike⟩ := mirrors.covered all entry member
    simp only [Entry.sameSite, Bool.and_eq_true, beq_iff_eq] at isLike
    exact ⟨child, Edges.mem_values_iff.mpr ⟨key, leads⟩, isLike⟩
  silent := fun none => (mirrors.quiet none).2.2

end Mirrors

/-! ## Events of a resolution -/

theorem events_eq_cons (oracle : Oracle) (limit : Option Nat) (unit : SourceUnit)
    (element : Element) :
    ∃ rest, events oracle limit unit element =
      .enter (.ofNode unit element.node (element.subject.label unit)) :: rest :=
  ⟨_, rfl⟩

/-- A batch without entries is no event. -/
theorem batch_ne_nil {oracle : Oracle} {limit : Option Nat} {unit : SourceUnit}
    {element : Element} {batch : List Entry}
    (member : Event.emit batch ∈ events oracle limit unit element) : batch ≠ [] := by
  obtain ⟨step, _, isEvent⟩ := List.mem_filterMap.mp member
  cases step with
  | enter entry => cases isEvent
  | exit => cases isEvent
  | found evidence =>
      simp only [Step.event?] at isEvent
      split at isEvent
      next => cases isEvent
      next nonempty =>
        cases isEvent
        exact nonempty

/-- The events of a resolution are recorded in full, from the root on. -/
theorem run_mirrors (mode : SiblingCommit) (oracle : Oracle) (limit : Option Nat)
    (unit : SourceUnit) (element : Element) :
    Mirrors mode (events oracle limit unit element)
      (GraphBuilder.run mode (events oracle limit unit element)) := by
  obtain ⟨rest, shape⟩ := events_eq_cons oracle limit unit element
  have given : ∀ batch, Event.emit batch ∈ rest → batch ≠ [] := by
    intro batch member
    exact batch_ne_nil (shape ▸ List.mem_cons_of_mem _ member)
  rw [shape]
  exact (Mirrors.start mode _).steps given

/-- Flat and graph resolution fail alike, and only because nothing could be found to ask
about; otherwise they are two accounts of the same events. -/
theorem resolveFlat_resolveGraph_agree (project : Project) (oracle : Oracle)
    (config : ResolverConfig) (anchor : Anchor) :
    (∃ error, locateAnchor project anchor = .error error ∧
      resolveFlat project oracle config anchor = .error error ∧
      resolveGraph project oracle config anchor = .error error) ∨
    (∃ reported entries graph, eventsAt project oracle config anchor = .ok reported ∧
      resolveFlat project oracle config anchor = .ok entries ∧
      resolveGraph project oracle config anchor = .ok graph ∧
      Agreement config.siblingCommit reported entries graph) := by
  cases located : locateAnchor project anchor with
  | error error =>
      have failed : eventsAt project oracle config anchor = .error error := by
        simp [eventsAt, located, bind, Except.bind]
      refine .inl ⟨error, rfl, ?_, ?_⟩
      · simp [resolveFlat, failed, Except.map]
      · simp [resolveGraph, failed, bind, Except.bind]
  | ok place =>
      obtain ⟨unit, element⟩ := place
      have reported := eventsAt_of_located located oracle config
      have flat := resolveFlat_of_located located oracle config
      have mirrors := run_mirrors config.siblingCommit oracle config.unionLimit unit element
      refine .inr ⟨_, _, _, reported, flat, ?_, mirrors.agreement⟩
      simp [resolveGraph, reported, bind, Except.bind, DependencyGraph.ofEvents?,
        GraphBuilder.graph?, mirrors.rooted]

end TypeTrace.Flow
