import Mathlib.Data.List.Pairwise
import Mathlib.Logic.Relation
import TypeTrace.Proofs.Flow.Agreement
import TypeTrace.Proofs.Flow.Edges

/-!
# Dependency maps are forests

A dependency map can be built from any events, also from events that close more than they
open or emit before anything is open.  Whatever the events are, edges lead from entries
that were entered to entries with higher numbers, and no entry is found twice among the
children: the map is a forest.  Keys differ in their labels, and the children of one key
differ in line or label.

`WellFormed` is what every event keeps, and `Forest` is what follows from it for the map of
any events.
-/

namespace TypeTrace.Flow

/-! ## What every event keeps -/

/-- A number that an entry got when it was entered. -/
def WasEntered (reported : List Event) (id : Nat) : Prop :=
  ∃ entry, (arena reported)[id]? = some (.entered, entry)

/-- How the entry of a number and the events so far determine a map that is being built, up
to its edges, and what holds of these. -/
structure WellFormed (reported : List Event) (builder : GraphBuilder) : Prop where
  numbered : builder.entries.toList = (arena reported).map (·.2)
  rooted : builder.root = (arena reported).findIdx? (·.1 = .entered)
  sound : builder.edges.Sound builder.entry builder.entries.size
  keys : ∀ key ∈ builder.edges.map (·.1), WasEntered reported key
  stacked : ∀ id ∈ builder.stack, WasEntered reported id
  nested : builder.stack.Pairwise (· > ·)
  isOpen : builder.root.isSome → builder.stack ≠ []

variable {mode : SiblingCommit} {reported : List Event} {builder : GraphBuilder}

theorem arena_append (before after : List Event) :
    arena (before ++ after) = arena before ++ arena after := by
  simp [arena]

theorem WasEntered.bound {id : Nat} (entered : WasEntered reported id) :
    id < (arena reported).length := by
  obtain ⟨entry, found⟩ := entered
  exact (List.getElem?_eq_some_iff.mp found).1

theorem WasEntered.append {id : Nat} (entered : WasEntered reported id)
    (later : List Event) : WasEntered (reported ++ later) id := by
  have bound := entered.bound
  obtain ⟨entry, found⟩ := entered
  refine ⟨entry, ?_⟩
  rw [arena_append, List.getElem?_append_left bound]
  exact found

namespace WellFormed

theorem start : WellFormed [] ⟨#[], [], [], none⟩ where
  numbered := rfl
  rooted := rfl
  sound := .empty
  keys := by
    intro key member
    cases member
  stacked := by
    intro id member
    cases member
  nested := .nil
  isOpen := by
    intro isSome
    cases isSome

theorem size_arena (formed : WellFormed reported builder) :
    builder.entries.size = (arena reported).length := by
  have lengths := congrArg List.length formed.numbered
  simpa using lengths

theorem stacked_bound (formed : WellFormed reported builder) :
    ∀ id ∈ builder.stack, id < builder.entries.size := by
  intro id member
  rw [formed.size_arena]
  exact (formed.stacked id member).bound

theorem sound_emit (formed : WellFormed reported builder) (batch : List Entry) :
    (builder.emit mode batch).edges.Sound (builder.emit mode batch).entry
      (builder.emit mode batch).entries.size := by
  have sound : builder.edges.Sound (builder.allocate batch).entry builder.entries.size := by
    apply formed.sound.grow _ (Nat.le_refl _)
    intro id bound
    exact GraphBuilder.entry_allocate bound
  have sameEntry : (builder.emit mode batch).entry = (builder.allocate batch).entry := by
    funext id
    exact GraphBuilder.commit_entry
  rw [sameEntry, GraphBuilder.emit, GraphBuilder.commit_entries]
  refine GraphBuilder.sound_commit sound formed.stacked_bound ?_ List.nodup_range' ?_
  · simp
  · intro id member
    simp only [GraphBuilder.freshIds, List.mem_range'_1] at member
    simpa using member

theorem keys_emit (formed : WellFormed reported builder) {batch : List Entry} {key : Nat}
    (isKey : key ∈ (builder.emit mode batch).edges.map (·.1)) : WasEntered reported key := by
  rcases GraphBuilder.mem_keys_commit isKey with before | onStack
  · exact formed.keys key before
  · exact formed.stacked key onStack

theorem emit (formed : WellFormed reported builder) (batch : List Entry) :
    WellFormed (reported ++ [.emit batch]) (builder.emit mode batch) where
  numbered := by
    simp [GraphBuilder.emit, formed.numbered, arena, Event.numbered, Function.comp_def]
  rooted := by
    have none : (arena [.emit batch]).findIdx? (·.1 = .entered) = none := by
      simp [arena, Event.numbered, List.findIdx?_eq_none_iff]
    rw [arena_append, List.findIdx?_append, none]
    simpa [GraphBuilder.emit, GraphBuilder.allocate] using formed.rooted
  sound := formed.sound_emit batch
  keys := by
    intro key isKey
    exact (formed.keys_emit isKey).append _
  stacked := by
    intro id member
    rw [GraphBuilder.emit, GraphBuilder.commit_stack] at member
    exact (formed.stacked id member).append _
  nested := by
    rw [GraphBuilder.emit, GraphBuilder.commit_stack]
    exact formed.nested
  isOpen := by
    rw [GraphBuilder.emit, GraphBuilder.commit_stack, GraphBuilder.commit_root]
    exact formed.isOpen

theorem enter (formed : WellFormed reported builder) (entry : Entry) :
    WellFormed (reported ++ [.enter entry]) (builder.enter mode entry) := by
  rw [GraphBuilder.enter_eq_emit]
  constructor
  · simp [GraphBuilder.emit, formed.numbered, arena, Event.numbered]
  · rw [arena_append, List.findIdx?_append, ← formed.size_arena, ← formed.rooted]
    simp [arena, Event.numbered]
  · exact formed.sound_emit [entry]
  · intro key isKey
    exact (formed.keys_emit isKey).append _
  · intro id member
    rcases List.mem_cons.mp member with rfl | member
    · refine ⟨entry, ?_⟩
      rw [arena_append, formed.size_arena, List.getElem?_append_right (Nat.le_refl _)]
      simp [arena, Event.numbered]
    · exact (formed.stacked id member).append _
  · rw [List.pairwise_cons]
    exact ⟨formed.stacked_bound, formed.nested⟩
  · intro _
    exact List.cons_ne_nil _ _

theorem exit (formed : WellFormed reported builder) :
    WellFormed (reported ++ [.exit]) builder.exit := by
  have sameArena : arena (reported ++ [.exit]) = arena reported := by
    simp [arena, Event.numbered]
  have kept : WellFormed (reported ++ [.exit]) builder := by
    constructor
    · rw [sameArena]
      exact formed.numbered
    · rw [sameArena]
      exact formed.rooted
    · exact formed.sound
    · intro key isKey
      exact (formed.keys key isKey).append _
    · intro id member
      exact (formed.stacked id member).append _
    · exact formed.nested
    · exact formed.isOpen
  unfold GraphBuilder.exit
  split
  next top next rest isStack =>
    have nested := kept.nested
    rw [isStack] at nested
    refine { kept with stacked := ?_, nested := nested.tail, isOpen := ?_ }
    · intro id member
      exact kept.stacked id (isStack ▸ List.mem_cons_of_mem top member)
    · intro _
      exact List.cons_ne_nil next rest
  next => exact kept

/-- The step lemma: every event keeps a map well formed. -/
theorem step (formed : WellFormed reported builder) (event : Event) :
    WellFormed (reported ++ [event]) (builder.step mode event) := by
  cases event with
  | enter entry => exact formed.enter entry
  | emit batch => exact formed.emit batch
  | exit => exact formed.exit

theorem steps (formed : WellFormed reported builder) (later : List Event) :
    WellFormed (reported ++ later) (later.foldl (GraphBuilder.step mode) builder) := by
  induction later generalizing reported builder with
  | nil => simpa using formed
  | cons event rest ih =>
      have run := ih (@step mode _ _ formed event)
      simpa using run

end WellFormed

/-- The map of any events is well formed. -/
theorem run_wellFormed (mode : SiblingCommit) (reported : List Event) :
    WellFormed reported (GraphBuilder.run mode reported) :=
  WellFormed.start.steps reported

/-! ## Forests -/

/-- A map, with the entries on its stack, that is a forest over what events have numbered. -/
structure Forest (reported : List Event) (builder : GraphBuilder) : Prop where
  /-- Everything that was entered or emitted is numbered. -/
  numbered : builder.entries.toList = (arena reported).map (·.2)
  /-- The root is the first entry that was entered. -/
  root_first : builder.root = (arena reported).findIdx? (·.1 = .entered)
  root_orphan : ∀ root key, builder.root = some root → ¬ builder.edges.Leads key root
  ascending : ∀ key child, builder.edges.Leads key child →
    key < child ∧ child < builder.entries.size
  acyclic : ∀ id, ¬ Relation.TransGen builder.edges.Leads id id
  /-- No number occurs twice over all lists of children. -/
  once : (builder.edges.flatMap (·.2)).Nodup
  single_parent : ∀ key other child, builder.edges.Leads key child →
    builder.edges.Leads other child → key = other
  keys_nodup : (builder.edges.map (·.1)).Nodup
  labels_differ : ∀ key ∈ builder.edges.map (·.1), ∀ other ∈ builder.edges.map (·.1),
    builder.label key = builder.label other → key = other
  sites_differ : ∀ key children, (key, children) ∈ builder.edges →
    children.Pairwise fun first second =>
      ¬ ((builder.entry first).line = (builder.entry second).line ∧
        (builder.entry first).label = (builder.entry second).label)
  keys_entered : ∀ key ∈ builder.edges.map (·.1), WasEntered reported key
  stack_open : (∃ id, WasEntered reported id) → builder.stack ≠ []
  /-- From the bottom of the stack to its top the numbers increase. -/
  stack_ascending : builder.stack.reverse.Pairwise (· < ·)

/-- Nothing that was entered comes before the first entry that was. -/
theorem le_of_wasEntered {root id : Nat}
    (isFirst : (arena reported).findIdx? (·.1 = .entered) = some root)
    (entered : WasEntered reported id) : root ≤ id := by
  obtain ⟨entry, found⟩ := entered
  obtain ⟨bound, isEntry⟩ := List.getElem?_eq_some_iff.mp found
  obtain ⟨_, _, earlier⟩ := List.findIdx?_eq_some_iff_getElem.mp isFirst
  by_contra before
  have notEntered := earlier id (by omega)
  simp [isEntry] at notEntered

theorem lt_of_transGen {edges : Edges}
    (ascending : ∀ key child, edges.Leads key child → key < child) {first last : Nat}
    (chain : Relation.TransGen edges.Leads first last) : first < last := by
  induction chain with
  | single leads => exact ascending _ _ leads
  | tail _ leads ih => exact Nat.lt_trans ih (ascending _ _ leads)

theorem Edges.Sound.single_parent {entry : Nat → Entry} {size : Nat} {edges : Edges}
    (sound : Edges.Sound entry size edges) {key other child : Nat}
    (leads : edges.Leads key child) (leadsOther : edges.Leads other child) :
    key = other := by
  obtain ⟨children, member, isChild⟩ := leads
  obtain ⟨others, memberOther, isOther⟩ := leadsOther
  by_contra differ
  have symmetric : Std.Symm (Function.onFun List.Disjoint
      fun pair : Nat × List Nat => pair.2) :=
    ⟨fun _ _ disjoint _ inSecond inFirst => disjoint inFirst inSecond⟩
  have disjoint := (List.nodup_flatMap.mp sound.once).2.forall member memberOther
    (by simp [differ])
  exact disjoint isChild isOther

/-- After any events, closed or not, whatever they report and whatever is kept of a first
batch, the map that has been built is a forest. -/
theorem run_forest (mode : SiblingCommit) (reported : List Event) :
    Forest reported (GraphBuilder.run mode reported) := by
  have formed := run_wellFormed mode reported
  have ascending := formed.sound.ascending
  constructor
  · exact formed.numbered
  · exact formed.rooted
  · intro root key isRoot leads
    have isKey : key ∈ (GraphBuilder.run mode reported).edges.map (·.1) := by
      obtain ⟨children, member, _⟩ := leads
      exact List.mem_map_of_mem member
    have notBefore := le_of_wasEntered (formed.rooted.symm.trans isRoot)
      (formed.keys key isKey)
    have after := (ascending key root leads).1
    omega
  · exact ascending
  · intro id circle
    have less := lt_of_transGen (fun key child leads => (ascending key child leads).1) circle
    omega
  · exact formed.sound.once
  · intro key other child leads leadsOther
    exact formed.sound.single_parent leads leadsOther
  · exact formed.sound.keys_nodup
  · intro key isKey other isOther sameLabel
    exact List.inj_on_of_nodup_map formed.sound.labelled isKey isOther sameLabel
  · intro key children member
    refine (formed.sound.apart _ member).imp ?_
    rintro first second differ ⟨sameLine, sameLabel⟩
    simp [Entry.sameSite, sameLine, sameLabel] at differ
  · exact formed.keys
  · rintro ⟨id, entry, found⟩
    apply formed.isOpen
    rw [formed.rooted, List.findIdx?_isSome, List.any_eq_true]
    exact ⟨_, List.mem_of_getElem? found, by simp⟩
  · rw [List.pairwise_reverse]
    exact formed.nested

end TypeTrace.Flow
