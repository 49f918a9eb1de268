import TypeTrace.Proofs.Flow.Filing

/-!
# What a dependency map holds

A dependency map is determined by the journal of its events.  Its keys are the entries that
something was found under, in the order in which that first happened.  The children of a
key are what its batches hold, one after the other, without the entries whose line and label
came up before; of the first batch only the first entry may be kept.

Map and journal go together event by event while the root is open (`Follows`), and leaving
the root changes neither.
-/

namespace TypeTrace.Flow

variable {mode : SiblingCommit} {reported : List Event} {builder : GraphBuilder}

/-! ## Maps that follow a journal -/

/-- A map that is being built and agrees with the journal of its events. -/
structure Follows (mode : SiblingCommit) (reported : List Event) (builder : GraphBuilder) :
    Prop where
  stack : builder.stack = (journal reported).stack
  files : Files mode (journal reported).batches builder

namespace Follows

/-- A batch goes under the same entry in the map and in the journal. -/
theorem files_emit (follows : Follows mode reported builder)
    (formed : WellFormed reported builder) (distinct : (enteredLabels reported).Nodup)
    {batch : List Entry} (given : batch ≠ []) :
    Files mode ((journal reported).batches ++ foundUnder (journal reported).stack
      (List.range' (journal reported).count batch.length)) (builder.emit mode batch) := by
  have count : (journal reported).count = builder.entries.size := by
    rw [journal_count, formed.size_arena]
  have numbered : Files mode (journal reported).batches (builder.allocate batch) := by
    apply follows.files.allocate
    intro pair member id isId
    rw [← count]
    exact ((journal_fair reported).batches pair member id isId).2
  rw [count, ← follows.stack]
  cases isTop : builder.stack with
  | nil =>
      have noTop : (builder.allocate batch).stack = [] := isTop
      simpa [GraphBuilder.emit, GraphBuilder.commit, noTop, foundUnder] using numbered
  | cons top rest =>
      have isOpen : top ∈ builder.stack := by
        rw [isTop]
        exact List.mem_cons_self
      have one : foundUnder (top :: rest) (List.range' builder.entries.size batch.length) =
          [(top, List.range' builder.entries.size batch.length)] := by
        cases batch with
        | nil => exact absurd rfl given
        | cons first more => rfl
      rw [one]
      apply numbered.commit isTop
      intro key found
      rw [formed.keyLike?_allocate isOpen] at found
      exact formed.keyLike?_eq distinct isOpen found

theorem emit (follows : Follows mode reported builder) (formed : WellFormed reported builder)
    (distinct : (enteredLabels reported).Nodup) {batch : List Entry} (given : batch ≠ []) :
    Follows mode (reported ++ [.emit batch]) (builder.emit mode batch) where
  stack := by
    rw [journal_concat]
    exact GraphBuilder.commit_stack.trans follows.stack
  files := by
    rw [journal_concat]
    exact follows.files_emit formed distinct given

theorem enter (follows : Follows mode reported builder) (formed : WellFormed reported builder)
    (distinct : (enteredLabels reported).Nodup) (entry : Entry) :
    Follows mode (reported ++ [.enter entry]) (builder.enter mode entry) where
  stack := by
    rw [journal_concat, GraphBuilder.enter_eq_emit]
    simp only [Journal.step, journal_count, formed.size_arena, follows.stack]
  files := by
    have files := follows.files_emit formed distinct (List.cons_ne_nil entry [])
    rw [journal_concat, GraphBuilder.enter_eq_emit]
    exact ⟨files.keys, files.children⟩

/-- An entry may be left while another one stays open. -/
theorem exit (follows : Follows mode reported builder)
    (isOpen : (journal (reported ++ [.exit])).stack ≠ []) :
    Follows mode (reported ++ [.exit]) builder.exit := by
  rw [journal_concat, Journal.step, ← follows.stack] at isOpen
  cases isStack : builder.stack with
  | nil =>
      rw [isStack] at isOpen
      exact absurd rfl isOpen
  | cons top below =>
      cases below with
      | nil =>
          rw [isStack] at isOpen
          exact absurd rfl isOpen
      | cons second rest =>
          have popped : builder.exit = { builder with stack := second :: rest } := by
            simp [GraphBuilder.exit, isStack]
          rw [popped]
          constructor
          · rw [journal_concat, Journal.step, ← follows.stack, isStack]
            rfl
          · rw [journal_concat]
            exact ⟨follows.files.keys, follows.files.children⟩

/-- Every event keeps map and journal together while some entry is open after it. -/
theorem step (follows : Follows mode reported builder) (formed : WellFormed reported builder)
    (distinct : (enteredLabels reported).Nodup) (event : Event)
    (given : ∀ batch, event = .emit batch → batch ≠ [])
    (isOpen : (journal (reported ++ [event])).stack ≠ []) :
    Follows mode (reported ++ [event]) (builder.step mode event) := by
  cases event with
  | enter entry => exact follows.enter formed distinct entry
  | emit batch => exact follows.emit formed distinct (given batch rfl)
  | exit => exact follows.exit isOpen

end Follows

theorem GraphBuilder.run_concat (mode : SiblingCommit) (before : List Event)
    (event : Event) :
    GraphBuilder.run mode (before ++ [event]) =
      (GraphBuilder.run mode before).step mode event := by
  simp [GraphBuilder.run]

theorem enteredLabels_nodup_before {before : List Event}
    (distinct : (enteredLabels reported).Nodup) (isPrefix : before <+: reported) :
    (enteredLabels before).Nodup := by
  obtain ⟨later, rfl⟩ := isPrefix
  rw [enteredLabels_append] at distinct
  exact distinct.of_append_left

/-- Events that open an entry, and up to their end open and close others in it.  No label is
entered twice and no batch is empty. -/
structure Enclosed (entry : Entry) (inner : List Event) : Prop where
  nested : Nested inner
  given : ∀ batch, .emit batch ∈ Event.enter entry :: inner → batch ≠ []
  distinct : (enteredLabels (.enter entry :: inner)).Nodup

namespace Enclosed

variable {entry : Entry} {inner : List Event}

/-- The run lemma: until the first entry is left, map and journal go together. -/
theorem follows (enclosed : Enclosed entry inner) {before : List Event}
    (isPrefix : before <+: .enter entry :: inner) :
    Follows mode before (GraphBuilder.run mode before) := by
  induction before using List.reverseRecOn with
  | nil => exact ⟨rfl, rfl, fun _ => rfl⟩
  | append_singleton before event ih =>
      have earlier : before <+: .enter entry :: inner :=
        (List.prefix_append before [event]).trans isPrefix
      rw [GraphBuilder.run_concat]
      apply (ih earlier).step (run_wellFormed mode before)
      · exact enteredLabels_nodup_before enclosed.distinct earlier
      · rintro batch rfl
        apply enclosed.given batch
        exact isPrefix.subset (List.mem_append_right before List.mem_cons_self)
      · exact stack_ne_nil enclosed.nested isPrefix (by simp)

/-- To leave the first entry changes nothing any more. -/
theorem files (enclosed : Enclosed entry inner) :
    Files mode (journal (.enter entry :: inner ++ [.exit])).batches
      (GraphBuilder.run mode (.enter entry :: inner ++ [.exit])) := by
  have follows := @follows mode entry inner enclosed _ List.prefix_rfl
  have onlyRoot : (GraphBuilder.run mode (.enter entry :: inner)).stack = [0] :=
    follows.stack.trans (enclosed.nested.stack_eq _)
  have stays : (GraphBuilder.run mode (.enter entry :: inner)).exit =
      GraphBuilder.run mode (.enter entry :: inner) := by
    rw [GraphBuilder.exit, onlyRoot]
  rw [GraphBuilder.run_concat, journal_concat, GraphBuilder.step, stays]
  exact follows.files

end Enclosed

theorem events_enclosed (oracle : Oracle) (limit : Option Nat) (unit : SourceUnit)
    (element : Element) : ∃ entry inner, Enclosed entry inner ∧
      events oracle limit unit element = .enter entry :: inner ++ [.exit] := by
  have shape : events oracle limit unit element =
      .enter (.ofNode unit element.node (element.subject.label unit)) ::
        reports oracle limit unit (innerSteps unit element) ++ [.exit] :=
    events_eq_enclosed oracle limit unit element
  refine ⟨_, _, ?_, shape⟩
  constructor
  · exact (innerSteps_works unit element).nested
  · intro batch member
    apply @batch_ne_nil oracle limit unit element
    rw [shape]
    exact List.mem_append_left _ member
  · apply enteredLabels_nodup_before
      (enteredLabels_events_nodup oracle limit unit element)
    rw [shape]
    exact List.prefix_append _ _

/-! ## Content of a finished map -/

/-- The map of events of which the first opens the root. -/
def graphOf (mode : SiblingCommit) (reported : List Event) : DependencyGraph :=
  ⟨(GraphBuilder.run mode reported).entries, (GraphBuilder.run mode reported).edges, 0⟩

/-- What a finished map holds, told from the journal of its events. -/
structure Content (mode : SiblingCommit) (reported : List Event) (graph : DependencyGraph) :
    Prop where
  root : graph.root = 0
  numbered : graph.entries.toList = (arena reported).map (·.2)
  entered : ∀ key ∈ graph.keys, WasEntered reported key
  /-- A key is an entry that something was found under. -/
  isKey : ∀ key, graph.isKey key ↔ (journal reported).batches.under key ≠ []
  /-- Keys stand in the order in which something was first found under them. -/
  keys : graph.keys = ((journal reported).batches.map (·.1)).eraseDups
  children : ∀ key, graph.children key =
    (admitted mode ((journal reported).batches.under key)).eraseDupsBy (alike graph.entry)
  /-- Until the end the map and the journal have the same entries open. -/
  stack : ∀ before, before <+: reported → before ≠ reported →
    (GraphBuilder.run mode before).stack = (journal before).stack
  /-- The key that is looked up for the entry on top is that entry itself. -/
  lookup : ∀ before event top key, before ++ [event] <+: reported →
    (GraphBuilder.run mode before).stack.head? = some top →
    ((GraphBuilder.run mode before).allocate (event.numbered.map (·.2))).keyLike? top =
      some key → key = top

/-- How a map that keeps first batches whole differs from one that keeps their first entries
only. -/
structure Widens (reported : List Event) (first all : DependencyGraph) : Prop where
  root : all.root = first.root
  entries : all.entries = first.entries
  keys : all.keys = first.keys
  /-- No line and label is lost. -/
  kept : ∀ key, ∀ child ∈ first.children key,
    ∃ other ∈ all.children key, alike all.entry child other
  /-- What is new comes from a first batch. -/
  added : ∀ key, ∀ child ∈ all.children key,
    (∃ other ∈ first.children key, alike all.entry child other) ∨
      ∃ batch, ((journal reported).batches.under key).head? = some batch ∧ child ∈ batch

theorem lookup_before {before : List Event} {event : Event} {top key : Nat}
    (distinct : (enteredLabels reported).Nodup) (isPrefix : before ++ [event] <+: reported)
    (isTop : (GraphBuilder.run mode before).stack.head? = some top)
    (found : ((GraphBuilder.run mode before).allocate (event.numbered.map (·.2))).keyLike? top =
      some key) : key = top := by
  have formed := run_wellFormed mode before
  have isOpen := List.mem_of_mem_head? isTop
  have earlier := (List.prefix_append before [event]).trans isPrefix
  rw [formed.keyLike?_allocate isOpen] at found
  exact formed.keyLike?_eq (enteredLabels_nodup_before distinct earlier) isOpen found

theorem content_of_events (mode : SiblingCommit) (oracle : Oracle) (limit : Option Nat)
    (unit : SourceUnit) (element : Element) :
    Content mode (events oracle limit unit element)
      (graphOf mode (events oracle limit unit element)) := by
  have distinct := enteredLabels_events_nodup oracle limit unit element
  have formed := run_wellFormed mode (events oracle limit unit element)
  obtain ⟨entry, inner, enclosed, shape⟩ := events_enclosed oracle limit unit element
  have files := @Enclosed.files mode entry inner enclosed
  rw [← shape] at files
  constructor
  · rfl
  · exact formed.numbered
  · exact formed.keys
  · intro key
    rw [ne_eq, Batches.under_eq_nil, not_not, ← List.mem_eraseDups, ← files.keys]
    exact Edges.isKey_iff
  · exact files.keys
  · exact files.children
  · intro before isPrefix goesOn
    rw [shape] at isPrefix goesOn
    rcases List.prefix_concat_iff.mp isPrefix with whole | inside
    · exact absurd whole goesOn
    · exact (enclosed.follows inside).stack
  · intro before event top key isPrefix isTop found
    exact lookup_before distinct isPrefix isTop found

theorem resolveGraph_of_located {project : Project} {anchor : Anchor} {unit : SourceUnit}
    {element : Element} (located : locateAnchor project anchor = .ok (unit, element))
    (oracle : Oracle) (config : ResolverConfig) :
    resolveGraph project oracle config anchor =
      .ok (graphOf config.siblingCommit
        (events oracle config.unionLimit unit element)) := by
  have rooted :=
    (run_mirrors config.siblingCommit oracle config.unionLimit unit element).rooted
  simp [resolveGraph, eventsAt_of_located located, bind, Except.bind,
    DependencyGraph.ofEvents?, GraphBuilder.graph?, rooted, graphOf]

/-! ## First entries and whole first batches -/

theorem admitted_firstOnly_subset (batches : List (List Nat)) :
    admitted .firstOnly batches ⊆ admitted .all batches := by
  cases batches with
  | nil => exact List.Subset.refl _
  | cons first later =>
      intro id member
      rcases List.mem_append.mp member with inFirst | inLater
      · exact List.mem_append_left _ (List.mem_of_mem_take inFirst)
      · exact List.mem_append_right _ inLater

theorem mem_admitted_all {batches : List (List Nat)} {id : Nat}
    (member : id ∈ admitted .all batches) :
    id ∈ admitted .firstOnly batches ∨ ∃ batch, batches.head? = some batch ∧ id ∈ batch := by
  cases batches with
  | nil => cases member
  | cons first later =>
      rcases List.mem_append.mp member with inFirst | inLater
      · exact .inr ⟨first, rfl, inFirst⟩
      · exact .inl (List.mem_append_right _ inLater)

theorem exists_alike {entry : Nat → Entry} {values : List Nat} {id : Nat}
    (member : id ∈ values) :
    ∃ other ∈ values.eraseDupsBy (alike entry), alike entry id other := by
  rcases @mem_eraseDupsBy_or_alike Nat (alike entry) values id member with kept | found
  · exact ⟨id, kept, alike_self entry id⟩
  · exact found

theorem Content.widens {first all : DependencyGraph}
    (ofFirst : Content .firstOnly reported first) (ofAll : Content .all reported all) :
    Widens reported first all := by
  have entries : all.entries = first.entries := by
    apply Array.toList_inj.mp
    rw [ofAll.numbered, ofFirst.numbered]
  have entry : all.entry = first.entry := by
    funext id
    rw [DependencyGraph.entry, DependencyGraph.entry, entries]
  constructor
  · rw [ofAll.root, ofFirst.root]
  · exact entries
  · rw [ofAll.keys, ofFirst.keys]
  · intro key child member
    rw [ofFirst.children] at member
    rw [ofAll.children]
    exact exists_alike (admitted_firstOnly_subset _ (mem_of_mem_eraseDupsBy member))
  · intro key child member
    rw [ofAll.children] at member
    rw [ofFirst.children, entry]
    rcases mem_admitted_all (mem_of_mem_eraseDupsBy member) with also | fromFirst
    · exact .inl (exists_alike also)
    · exact .inr fromFirst

/-- A resolution either fails for want of an element, whatever is kept of a first batch, or
gives for each way of keeping them the map that the journal of its events tells. -/
theorem resolveGraph_content (project : Project) (oracle : Oracle) (config : ResolverConfig)
    (anchor : Anchor) :
    (∃ error, locateAnchor project anchor = .error error ∧
      ∀ mode, resolveGraph project oracle { config with siblingCommit := mode } anchor =
        .error error) ∨
    (∃ reported, ∃ graph : SiblingCommit → DependencyGraph,
      (∀ mode, eventsAt project oracle { config with siblingCommit := mode } anchor =
          .ok reported ∧
        resolveGraph project oracle { config with siblingCommit := mode } anchor =
          .ok (graph mode) ∧
        Content mode reported (graph mode)) ∧
      Widens reported (graph .firstOnly) (graph .all)) := by
  cases located : locateAnchor project anchor with
  | error error =>
      refine .inl ⟨error, rfl, ?_⟩
      intro mode
      simp [resolveGraph, eventsAt, located, bind, Except.bind]
  | ok place =>
      obtain ⟨unit, element⟩ := place
      have content mode := content_of_events mode oracle config.unionLimit unit element
      refine .inr ⟨_, fun mode => graphOf mode _, ?_,
        (content .firstOnly).widens (content .all)⟩
      intro mode
      exact ⟨eventsAt_of_located located oracle _, resolveGraph_of_located located oracle _,
        content mode⟩

end TypeTrace.Flow
