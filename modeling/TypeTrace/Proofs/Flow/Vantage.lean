import TypeTrace.Proofs.Flow.Closure
import TypeTrace.Proofs.Flow.Content

/-!
# The place a variable is asked about at

What flows into a variable does not depend on where the variable is asked about.  The search
works on its text alone; the place only gives the entry that is entered first.  That entry is
on no list, but it has the first number of the dependency map, where duplicates and keys are
looked up.

A map is told from the journal of its events, and a journal does not look at entries.  Entries
come in when duplicates are left out, but only those of children are compared, and the root
is no child.  So the root's entry is the only thing in which two such maps differ
(`Content.sameButRoot`).
-/

namespace TypeTrace.Flow

open Syntax

/-! ## Edges told from their children -/

namespace Edges

/-- Edges with different keys are their keys, each with its children. -/
theorem eq_map_children {edges : Edges} (distinct : (edges.map (·.1)).Nodup) :
    edges = (edges.map (·.1)).map fun key => (key, edges.children key) := by
  induction edges with
  | nil => rfl
  | cons pair rest ih =>
      obtain ⟨key, recorded⟩ := pair
      rw [List.map_cons, List.nodup_cons] at distinct
      have own : Edges.children ((key, recorded) :: rest) key = recorded := by
        simp [Edges.children]
      have others : ∀ other ∈ rest.map (·.1),
          Edges.children ((key, recorded) :: rest) other = Edges.children rest other := by
        intro other member
        have differs : other ≠ key := by
          rintro rfl
          exact distinct.1 member
        simp [Edges.children, List.lookup_cons, beq_false_of_ne differs]
      rw [List.map_cons, List.map_cons, own]
      congr 1
      refine (ih distinct.2).trans ?_
      apply List.map_congr_left
      intro other member
      rw [others other member]

theorem eq_of_children {first second : Edges} (distinct : (first.map (·.1)).Nodup)
    (keys : first.map (·.1) = second.map (·.1))
    (children : ∀ key, first.children key = second.children key) : first = second := by
  have distinctSecond : (second.map (·.1)).Nodup := by
    rw [← keys]
    exact distinct
  rw [eq_map_children distinct, eq_map_children distinctSecond, keys]
  apply List.map_congr_left
  intro key _
  rw [children]

end Edges

/-! ## Maps that differ in the root's entry -/

/-- Maps that are the same but for the node and the line of the root's entry. -/
structure DependencyGraph.SameButRoot (first second : DependencyGraph) : Prop where
  root : first.root = second.root
  edges : first.edges = second.edges
  size : first.entries.size = second.entries.size
  elsewhere : ∀ id, id ≠ first.root → first.entries[id]? = second.entries[id]?
  label : first.label first.root = second.label second.root

/-- Nothing was found under an entry before it had its number, so the first entry is in no
batch. -/
theorem pos_of_mem_admitted {mode : SiblingCommit} {reported : List Event} {key id : Nat}
    (member : id ∈ admitted mode ((journal reported).batches.under key)) : 0 < id := by
  obtain ⟨batch, isBatch, inBatch⟩ := mem_of_mem_admitted member
  have bounds := (journal_fair reported).batches _ (Batches.mem_under.mp isBatch) id inBatch
  exact Nat.zero_lt_of_lt bounds.1

namespace Content

variable {mode : SiblingCommit} {entry left right : Entry} {rest : List Event}
variable {graph first second : DependencyGraph}

theorem entries_eq (content : Content mode (.enter entry :: rest) graph) :
    graph.entries.toList = entry :: (arena rest).map (·.2) :=
  content.numbered

/-- The entry that events start with is the root's. -/
theorem entry_root (content : Content mode (.enter entry :: rest) graph) :
    graph.entry graph.root = entry := by
  rw [DependencyGraph.entry, ← Array.getElem?_toList, content.entries_eq, content.root]
  rfl

theorem keys_nodup {reported : List Event} (content : Content mode reported graph) :
    (graph.edges.map (·.1)).Nodup := by
  have keys : graph.edges.map (·.1) = _ := content.keys
  rw [keys]
  apply (eraseDupsBy_apart _).imp
  intro earlier later differ
  exact (ne_of_beq_false differ).symm

/-- Events that go on in the same way number the same entries after the first one. -/
theorem entries_elsewhere (ofFirst : Content mode (.enter left :: rest) first)
    (ofSecond : Content mode (.enter right :: rest) second) {id : Nat} (later : 0 < id) :
    first.entries[id]? = second.entries[id]? := by
  obtain ⟨before, rfl⟩ := Nat.exists_eq_add_one.mpr later
  rw [← Array.getElem?_toList, ← Array.getElem?_toList, ofFirst.entries_eq,
    ofSecond.entries_eq, List.getElem?_cons_succ, List.getElem?_cons_succ]

/-- The root's entry has no say in what is left out as a duplicate: only children are
compared, and the root is none. -/
theorem children_eq (ofFirst : Content mode (.enter left :: rest) first)
    (ofSecond : Content mode (.enter right :: rest) second) (key : Nat) :
    first.children key = second.children key := by
  have sameJournal : journal (.enter left :: rest) = journal (.enter right :: rest) := rfl
  rw [ofFirst.children, ofSecond.children, sameJournal]
  apply eraseDupsBy_congr
  intro later isLater earlier isEarlier
  have laterEntry := ofFirst.entries_elsewhere ofSecond (pos_of_mem_admitted isLater)
  have earlierEntry := ofFirst.entries_elsewhere ofSecond (pos_of_mem_admitted isEarlier)
  rw [alike, alike, DependencyGraph.entry, DependencyGraph.entry, DependencyGraph.entry,
    DependencyGraph.entry, laterEntry, earlierEntry]

/-- Events that go on in the same way make the same map, but for the entry they start
with. -/
theorem sameButRoot (ofFirst : Content mode (.enter left :: rest) first)
    (ofSecond : Content mode (.enter right :: rest) second)
    (sameLabel : left.label = right.label) : first.SameButRoot second where
  root := by rw [ofFirst.root, ofSecond.root]
  edges := by
    apply Edges.eq_of_children ofFirst.keys_nodup
    · exact ofFirst.keys.trans ofSecond.keys.symm
    · exact ofFirst.children_eq ofSecond
  size := by
    rw [← Array.length_toList, ← Array.length_toList, ofFirst.entries_eq,
      ofSecond.entries_eq, List.length_cons, List.length_cons]
  elsewhere := by
    intro id notRoot
    rw [ofFirst.root] at notRoot
    exact ofFirst.entries_elsewhere ofSecond (Nat.pos_of_ne_zero notRoot)
  label := by
    rw [DependencyGraph.label, DependencyGraph.label, ofFirst.entry_root,
      ofSecond.entry_root, sameLabel]

end Content

/-! ## Two places with one subject -/

/-- A search depends on the place it starts from in its first step only. -/
theorem innerSteps_of_subject {unit : SourceUnit} {first second : Element}
    (subject : first.subject = second.subject) :
    innerSteps unit first = innerSteps unit second := by
  have works := innerSteps_works unit first
  rw [subject] at works
  exact (works.unique (innerSteps_works unit second)).1

theorem flatEntries_of_subject (oracle : Oracle) (limit : Option Nat) (unit : SourceUnit)
    {first second : Element} (subject : first.subject = second.subject) :
    flatEntries (events oracle limit unit first) =
      flatEntries (events oracle limit unit second) := by
  rw [events_eq_enclosed, events_eq_enclosed, innerSteps_of_subject subject]
  rfl

/-- The content of an element's map, told from the entry that stands at the element and the
events that follow. -/
theorem content_of_enclosed (mode : SiblingCommit) (oracle : Oracle) (limit : Option Nat)
    (unit : SourceUnit) (element : Element) :
    Content mode (.enter (.ofNode unit element.node (element.subject.label unit)) ::
        (reports oracle limit unit (innerSteps unit element) ++ [.exit]))
      (graphOf mode (events oracle limit unit element)) := by
  rw [← events_eq_enclosed]
  exact content_of_events mode oracle limit unit element

theorem graphOf_sameButRoot (mode : SiblingCommit) (oracle : Oracle) (limit : Option Nat)
    (unit : SourceUnit) {first second : Element} (subject : first.subject = second.subject) :
    (graphOf mode (events oracle limit unit first)).SameButRoot
      (graphOf mode (events oracle limit unit second)) := by
  have ofFirst := content_of_enclosed mode oracle limit unit first
  have ofSecond := content_of_enclosed mode oracle limit unit second
  rw [innerSteps_of_subject subject] at ofFirst
  apply ofFirst.sameButRoot ofSecond
  simp only [Entry.ofNode, subject]

theorem locateAnchor_of_classify {project : Project} {anchor : Anchor} {unit : SourceUnit}
    {element : Element} (isUnit : project.unit? anchor.path = some unit)
    (classified : classify unit anchor.offset = .ok element) :
    locateAnchor project anchor = .ok (unit, element) := by
  simp [locateAnchor, unitAt, isUnit, classified, bind, Except.bind, pure, Except.pure]

/-- Wherever in a unit a variable is asked about, its types are the same, and so is where they
come from: only the root of the dependency map stands at the place that was asked about. -/
theorem resolve_variable_anywhere {project : Project} {unit : SourceUnit}
    {first second : Anchor} {left right : Expr} {text : String} (oracle : Oracle)
    (config : ResolverConfig)
    (firstUnit : project.unit? first.path = some unit)
    (secondUnit : project.unit? second.path = some unit)
    (isFirst : classify unit first.offset = .ok (.variable left text))
    (isSecond : classify unit second.offset = .ok (.variable right text)) :
    (∃ entries, resolveFlat project oracle config first = .ok entries ∧
      resolveFlat project oracle config second = .ok entries) ∧
    ∃ graph other, resolveGraph project oracle config first = .ok graph ∧
      resolveGraph project oracle config second = .ok other ∧
      graph.SameButRoot other ∧
      graph.entry graph.root = .ofNode unit (.expr left) text ∧
      other.entry other.root = .ofNode unit (.expr right) text := by
  have firstLocated := locateAnchor_of_classify firstUnit isFirst
  have secondLocated := locateAnchor_of_classify secondUnit isSecond
  have subject : (Element.variable left text).subject = (Element.variable right text).subject :=
    rfl
  constructor
  · refine ⟨_, resolveFlat_of_located firstLocated oracle config, ?_⟩
    rw [resolveFlat_of_located secondLocated oracle config,
      flatEntries_of_subject oracle config.unionLimit unit subject]
  · refine ⟨_, _, resolveGraph_of_located firstLocated oracle config,
      resolveGraph_of_located secondLocated oracle config, ?_, ?_, ?_⟩
    · exact graphOf_sameButRoot _ oracle _ unit subject
    · exact (content_of_enclosed _ oracle _ unit (.variable left text)).entry_root
    · exact (content_of_enclosed _ oracle _ unit (.variable right text)).entry_root

/-- In `circle`, `a` is read inside a function and assigned outside of it. -/
theorem resolve_circle_anywhere :
    (∃ entries, resolveFlat ⟨[circle]⟩ Builtin.oracle {} ⟨"circle.py", 20⟩ = .ok entries ∧
      resolveFlat ⟨[circle]⟩ Builtin.oracle {} ⟨"circle.py", 22⟩ = .ok entries) ∧
    ∃ graph other,
      resolveGraph ⟨[circle]⟩ Builtin.oracle {} ⟨"circle.py", 20⟩ = .ok graph ∧
      resolveGraph ⟨[circle]⟩ Builtin.oracle {} ⟨"circle.py", 22⟩ = .ok other ∧
      graph.SameButRoot other ∧
      graph.entry graph.root = .ofNode circle (.expr (.name ⟨20, 21⟩ "a" .load)) "a" ∧
      other.entry other.root = .ofNode circle (.expr (.name ⟨22, 23⟩ "a" .store)) "a" := by
  have isUnit : Project.unit? ⟨[circle]⟩ "circle.py" = some circle := by cbv
  have read : classify circle 20 = .ok (.variable (.name ⟨20, 21⟩ "a" .load) "a") := by cbv
  have assigned :
      classify circle 22 = .ok (.variable (.name ⟨22, 23⟩ "a" .store) "a") := by cbv
  exact resolve_variable_anywhere Builtin.oracle {} isUnit isUnit read assigned

end TypeTrace.Flow
