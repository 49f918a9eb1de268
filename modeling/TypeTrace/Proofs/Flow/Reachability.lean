import TypeTrace.Oracle.Builtin
import TypeTrace.Proofs.Flow.Content
import TypeTrace.View.Tree

/-!
# Which keys of a dependency map can be reached

An entry that is opened becomes a child of the one it was opened under, unless that has a
child of the same line and label already.  No label is entered twice, so such a child is a
type that was reported.  The entry is left out, but it is open all the same and becomes a
key as soon as something is found under it: a key that nothing leads to, nor to anything
that was opened inside it.

This is the only way for a key to get lost.  It does happen: `homonym` is a unit with such
a key.
-/

namespace TypeTrace.Flow

/-- Whether a map leads from its root to an entry. -/
def DependencyGraph.Reachable (graph : DependencyGraph) : Nat → Prop :=
  Relation.ReflTransGen (fun parent child => child ∈ graph.children parent) graph.root

/-- A number that an entry got when it was emitted. -/
def WasEmitted (reported : List Event) (id : Nat) : Prop :=
  ∃ entry, (arena reported)[id]? = some (.emitted, entry)

/-- An entry that was entered while another one was on top of the stack. -/
def OpenedUnder (reported : List Event) (parent id : Nat) : Prop :=
  (parent, [id]) ∈ (journal reported).batches ∧ WasEntered reported id

/-- An entry that was opened under one that has an emitted child of its line and label. -/
def Hidden (reported : List Event) (graph : DependencyGraph) (id : Nat) : Prop :=
  ∃ parent sibling, OpenedUnder reported parent id ∧ sibling ∈ graph.children parent ∧
    WasEmitted reported sibling ∧ alike graph.entry id sibling

/-! ## Everything but the root is opened under something -/

theorem wasEntered_concat {before : List Event} {event : Event} {id : Nat}
    (entered : WasEntered (before ++ [event]) id) :
    WasEntered before id ∨ ∃ entry, event = .enter entry ∧ id = (arena before).length := by
  obtain ⟨entry, found⟩ := entered
  rw [arena_append] at found
  by_cases known : id < (arena before).length
  · rw [List.getElem?_append_left known] at found
    exact .inl ⟨entry, found⟩
  · rw [List.getElem?_append_right (Nat.not_lt.mp known)] at found
    cases event with
    | enter other =>
        refine .inr ⟨other, rfl, ?_⟩
        have single : (arena [.enter other]).length = 1 := rfl
        obtain ⟨bound, _⟩ := List.getElem?_eq_some_iff.mp found
        omega
    | emit batch =>
        have member := List.mem_of_getElem? found
        simp [arena, Event.numbered] at member
    | exit => simp [arena, Event.numbered] at found

theorem Journal.batches_subset_step (account : Journal) (event : Event) :
    account.batches ⊆ (account.step event).batches := by
  cases event with
  | enter entry => exact List.subset_append_left _ _
  | emit batch => exact List.subset_append_left _ _
  | exit => exact List.Subset.refl _

theorem Enclosed.exists_opened {entry : Entry} {inner before : List Event}
    (enclosed : Enclosed entry inner) (isPrefix : before <+: .enter entry :: inner) {id : Nat}
    (entered : WasEntered before id) (notRoot : id ≠ 0) :
    ∃ parent, (parent, [id]) ∈ (journal before).batches := by
  induction before using List.reverseRecOn with
  | nil =>
      obtain ⟨_, found⟩ := entered
      cases found
  | append_singleton before event ih =>
      have earlier : before <+: .enter entry :: inner :=
        (List.prefix_append before [event]).trans isPrefix
      rw [journal_concat]
      rcases wasEntered_concat entered with known | ⟨other, rfl, isNext⟩
      · obtain ⟨parent, member⟩ := ih earlier known
        exact ⟨parent, Journal.batches_subset_step _ event member⟩
      · -- Only the root is entered when nothing has happened yet.
        have begun : before ≠ [] := by
          rintro rfl
          exact notRoot isNext
        obtain ⟨top, rest, isStack⟩ :=
          List.exists_cons_of_ne_nil (stack_ne_nil enclosed.nested earlier begun)
        refine ⟨top, List.mem_append_right _ (mem_foundUnder.mpr ⟨?_, ?_, ?_⟩)⟩
        · rw [isStack]
          rfl
        · rw [isNext, journal_count]
        · exact List.cons_ne_nil _ _

theorem exists_opened_events {oracle : Oracle} {limit : Option Nat} {unit : SourceUnit}
    {element : Element} {id : Nat}
    (entered : WasEntered (events oracle limit unit element) id) (notRoot : id ≠ 0) :
    ∃ parent, OpenedUnder (events oracle limit unit element) parent id := by
  have again := entered
  obtain ⟨entry, inner, enclosed, shape⟩ := events_enclosed oracle limit unit element
  rw [shape] at again
  rcases wasEntered_concat again with inside | ⟨_, isEnter, _⟩
  · obtain ⟨parent, member⟩ := enclosed.exists_opened List.prefix_rfl inside notRoot
    refine ⟨parent, ?_, entered⟩
    rw [shape, journal_concat]
    exact member
  · cases isEnter

/-! ## Children and what was opened -/

section Children

variable {mode : SiblingCommit} {reported : List Event} {graph : DependencyGraph}
variable {parent key child id : Nat}

theorem OpenedUnder.lt (opened : OpenedUnder reported parent id) : parent < id :=
  ((journal_fair reported).batches _ opened.1 id List.mem_cons_self).1

namespace Content

theorem entry_eq (content : Content mode reported graph) {origin : Origin} {entry : Entry}
    (found : (arena reported)[id]? = some (origin, entry)) : graph.entry id = entry := by
  rw [DependencyGraph.entry, ← Array.getElem?_toList, content.numbered, List.getElem?_map,
    found]
  rfl

/-- A child comes from a batch of its key. -/
theorem exists_batch (content : Content mode reported graph)
    (member : child ∈ graph.children key) :
    ∃ batch, (key, batch) ∈ (journal reported).batches ∧ child ∈ batch := by
  rw [content.children] at member
  obtain ⟨batch, isBatch, inBatch⟩ := mem_of_mem_admitted (mem_of_mem_eraseDupsBy member)
  exact ⟨batch, Batches.mem_under.mp isBatch, inBatch⟩

/-- What was opened under an entry is a child of no other. -/
theorem eq_parent (content : Content mode reported graph)
    (member : child ∈ graph.children key) (opened : OpenedUnder reported parent child) :
    key = parent := by
  obtain ⟨batch, isBatch, inBatch⟩ := content.exists_batch member
  have same := (journal_fair reported).sole _ isBatch _ opened.1 child inBatch
    List.mem_cons_self
  exact congrArg Prod.fst same

theorem not_alike (content : Content mode reported graph) {first second : Nat}
    (isFirst : first ∈ graph.children key) (isSecond : second ∈ graph.children key)
    (differ : first ≠ second) : alike graph.entry first second = false := by
  have apart := @eraseDupsBy_apart Nat (alike graph.entry)
    (admitted mode ((journal reported).batches.under key))
  rw [← content.children] at apart
  have symmetric : Std.Symm fun earlier later => alike graph.entry later earlier = false :=
    ⟨fun earlier later unlike => (alike_comm _ _ _).trans unlike⟩
  exact apart.forall isSecond isFirst differ.symm

/-- A child is not hidden, for no other child has its line and label. -/
theorem not_hidden_of_mem_children (content : Content mode reported graph)
    (member : child ∈ graph.children key) : ¬ Hidden reported graph child := by
  rintro ⟨parent, sibling, opened, isSibling, ⟨entry, emitted⟩, isAlike⟩
  cases content.eq_parent member opened
  have differ : child ≠ sibling := by
    rintro rfl
    obtain ⟨_, other, entered⟩ := opened
    cases emitted.symm.trans entered
  rw [content.not_alike member isSibling differ] at isAlike
  cases isAlike

/-- What is opened becomes a child, or it is hidden. -/
theorem mem_children_or_hidden (content : Content mode reported graph)
    (distinct : (enteredLabels reported).Nodup) (opened : OpenedUnder reported parent id) :
    id ∈ graph.children parent ∨ Hidden reported graph id := by
  have isAdmitted : id ∈ admitted mode ((journal reported).batches.under parent) :=
    mem_admitted_of_singleton (Batches.mem_under.mpr opened.1)
  rw [content.children]
  rcases @mem_eraseDupsBy_or_alike Nat (alike graph.entry) _ id isAdmitted with
    kept | ⟨sibling, kept, isAlike⟩
  · exact .inl kept
  · rw [← content.children] at kept ⊢
    obtain ⟨batch, isBatch, inBatch⟩ := content.exists_batch kept
    have bound := ((journal_fair reported).batches _ isBatch sibling inBatch).2
    rw [journal_count] at bound
    obtain ⟨⟨origin, entry⟩, found⟩ : ∃ numbered, (arena reported)[sibling]? = some numbered :=
      ⟨_, List.getElem?_eq_getElem bound⟩
    cases origin with
    | emitted => exact .inr ⟨parent, sibling, opened, kept, ⟨entry, found⟩, isAlike⟩
    | entered =>
        -- Two entries that were entered differ in label.
        obtain ⟨_, other, isEntered⟩ := opened
        simp only [alike, content.entry_eq isEntered, content.entry_eq found,
          decide_eq_true_eq] at isAlike
        rw [eq_of_entered_label distinct isEntered found isAlike.2]
        exact .inl kept

/-! ## Paths from the root -/

theorem not_hidden_of_reachable (content : Content mode reported graph)
    (reached : graph.Reachable key)
    (within : Relation.ReflTransGen (OpenedUnder reported) id key) :
    ¬ Hidden reported graph id := by
  induction reached generalizing id with
  | refl =>
      -- Nothing was entered before the root, so it was opened under nothing.
      have notOpened parent : ¬ OpenedUnder reported parent graph.root := by
        intro opened
        have before := opened.lt
        rw [content.root] at before
        exact Nat.not_lt_zero parent before
      rcases within.cases_tail with rfl | ⟨parent, _, opened⟩
      · rintro ⟨parent, _, opened, _⟩
        exact notOpened parent opened
      · exact absurd opened (notOpened parent)
  | tail _ member ih =>
      rcases within.cases_tail with rfl | ⟨parent, above, opened⟩
      · exact content.not_hidden_of_mem_children member
      · cases content.eq_parent member opened
        exact ih above

theorem reachable_of_not_hidden (content : Content mode reported graph)
    (distinct : (enteredLabels reported).Nodup)
    (opened : ∀ id, WasEntered reported id → id ≠ 0 → ∃ parent, OpenedUnder reported parent id)
    (entered : WasEntered reported key)
    (clear : ∀ id, Relation.ReflTransGen (OpenedUnder reported) id key →
      ¬ Hidden reported graph id) : graph.Reachable key := by
  induction key using Nat.strong_induction_on with
  | _ key ih =>
      by_cases isRoot : key = 0
      · rw [isRoot, ← content.root]
        exact .refl
      · obtain ⟨parent, openedUnder⟩ := opened key entered isRoot
        have parentEntered : WasEntered reported parent := by
          apply content.entered
          rw [content.keys, List.mem_eraseDups]
          exact List.mem_map_of_mem openedUnder.1
        have reached : graph.Reachable parent := by
          apply ih parent openedUnder.lt parentEntered
          intro id above
          exact clear id (above.tail openedUnder)
        rcases content.mem_children_or_hidden distinct openedUnder with member | hidden
        · exact reached.tail member
        · exact absurd hidden (clear key .refl)

end Content

end Children

/-- A resolution fails for want of an element, or it gives a map whose keys can be reached
from the root just if neither they nor anything they were opened inside is hidden. -/
theorem resolveGraph_reachable (project : Project) (oracle : Oracle)
    (config : ResolverConfig) (anchor : Anchor) :
    (∃ error, locateAnchor project anchor = .error error ∧
      resolveGraph project oracle config anchor = .error error) ∨
    (∃ reported graph, eventsAt project oracle config anchor = .ok reported ∧
      resolveGraph project oracle config anchor = .ok graph ∧
      ∀ key ∈ graph.keys, graph.Reachable key ↔
        ∀ id, Relation.ReflTransGen (OpenedUnder reported) id key →
          ¬ Hidden reported graph id) := by
  cases located : locateAnchor project anchor with
  | error error =>
      refine .inl ⟨error, rfl, ?_⟩
      simp [resolveGraph, eventsAt, located, bind, Except.bind]
  | ok place =>
      obtain ⟨unit, element⟩ := place
      have content := content_of_events config.siblingCommit oracle config.unionLimit unit
        element
      have distinct := enteredLabels_events_nodup oracle config.unionLimit unit element
      refine .inr ⟨_, _, eventsAt_of_located located oracle config,
        resolveGraph_of_located located oracle config, ?_⟩
      intro key isKey
      constructor
      · intro reached id within
        exact content.not_hidden_of_reachable reached within
      · intro clear
        apply content.reachable_of_not_hidden distinct _ (content.entered key isKey) clear
        intro id entered notRoot
        exact exists_opened_events entered notRoot

/-! ## A key that cannot be reached -/

/-- A variable that gets a number and, in the same line, the value of a variable called
`int`:
```
x = 1; x = int
int = 's'
``` -/
def homonym : SourceUnit where
  path := "m.py"
  text := "x = 1; x = int\nint = 's'\n".toList
  suite := [
    .assign ⟨0, 5⟩ [.name ⟨0, 1⟩ "x" .store] (.constant ⟨4, 5⟩ .int),
    .assign ⟨7, 14⟩ [.name ⟨7, 8⟩ "x" .store] (.name ⟨11, 14⟩ "int" .load),
    .assign ⟨15, 24⟩ [.name ⟨15, 18⟩ "int" .store] (.constant ⟨21, 24⟩ .str)]

/-- What is found at the first `x`. -/
def homonymGraph : DependencyGraph where
  entries := #[
    ⟨0, "x", .expr (.name ⟨0, 1⟩ "x" .store)⟩,
    ⟨0, "int", .expr (.constant ⟨4, 5⟩ .int)⟩,
    ⟨0, "int", .expr (.name ⟨11, 14⟩ "int" .load)⟩,
    ⟨1, "str", .expr (.constant ⟨21, 24⟩ .str)⟩]
  edges := [(0, [1]), (2, [3])]
  root := 0

/-- The variable `int` has a type below it, but the variable `x` leads to the type `int` of
that line instead, and the type is nowhere to be seen. -/
theorem homonym_unreachable :
    resolveGraph ⟨[homonym]⟩ Builtin.oracle {} ⟨"m.py", 0⟩ = .ok homonymGraph ∧
      2 ∈ homonymGraph.keys ∧ ¬ homonymGraph.Reachable 2 ∧
      (homonymGraph.children 2).map homonymGraph.label = ["str"] ∧
      (View.collectTypes homonymGraph).map (·.label) = ["int"] := by
  refine ⟨by with_unfolding_all rfl, by decide, ?_, by decide +kernel, by decide +kernel⟩
  intro reached
  have near {id : Nat} (reached : homonymGraph.Reachable id) : id = 0 ∨ id = 1 := by
    induction reached with
    | refl => exact .inl rfl
    | tail _ member ih =>
        rcases ih with rfl | rfl
        · exact .inr (List.mem_singleton.mp member)
        · cases member
  rcases near reached with isRoot | isType
  · cases isRoot
  · cases isType

end TypeTrace.Flow
