import Mathlib.Data.List.Find
import TypeTrace.Proofs.Flow.Journal
import TypeTrace.Proofs.Keyed

/-!
# Filing batches under keys

What a map makes of the batches it is given: keys in the order of their first batches, and
the children of each key without those whose line and label came up before.  A map that
holds just what is in some batches (`Files`) takes one more batch under the entry on top of
the stack, provided that the key it looks up for that entry is the entry itself.

Keys are looked up by label.  That makes no difference as long as no label is entered twice:
then the key with the label of an open entry is that entry (`WellFormed.keyLike?_eq`).
-/

namespace TypeTrace.Flow

/-! ## Children of the map -/

/-- Whether the entries of two numbers have the same line and label. -/
def alike (entry : Nat → Entry) (later earlier : Nat) : Bool :=
  decide ((entry later).line = (entry earlier).line ∧
    (entry later).label = (entry earlier).label)

/-- What the batches of a key give it.  The first one makes the key. -/
def admitted (mode : SiblingCommit) : List (List Nat) → List Nat
  | [] => []
  | first :: later =>
      (match mode with
        | .firstOnly => first.take 1
        | .all => first) ++ later.flatten

theorem admitted_singleton (mode : SiblingCommit) (batch : List Nat) :
    admitted mode [batch] = GraphBuilder.kept mode batch := by
  cases mode with
  | firstOnly => simp [admitted, GraphBuilder.kept]
  | all => simp [admitted, GraphBuilder.kept]

theorem admitted_concat {mode : SiblingCommit} {batches : List (List Nat)}
    (begun : batches ≠ []) (batch : List Nat) :
    admitted mode (batches ++ [batch]) = admitted mode batches ++ batch := by
  cases batches with
  | nil => exact absurd rfl begun
  | cons first later => simp [admitted]

@[simp] theorem alike_self (entry : Nat → Entry) (id : Nat) : alike entry id id = true := by
  simp [alike]

theorem alike_comm (entry : Nat → Entry) (first second : Nat) :
    alike entry first second = alike entry second first := by
  simp only [alike, eq_comm]

theorem sameSite_eq_alike (entry : Nat → Entry) (first second : Nat) :
    (entry first).sameSite (entry second) = alike entry first second := by
  rw [Bool.eq_iff_iff, alike, Entry.sameSite, Bool.and_eq_true, beq_iff_eq, beq_iff_eq,
    decide_eq_true_eq]

namespace Edges

variable {edges : Edges} {key child other : Nat}

theorem isKey_iff : edges.isKey key = true ↔ key ∈ edges.map (·.1) := by
  rw [isKey, Option.isSome_iff_ne_none, ne_eq, List.lookup_eq_none_iff, List.mem_map]
  simp only [bne_iff_ne, ne_eq, not_forall, not_not, exists_prop, @eq_comm _ key]

theorem children_addChild_other (differs : other ≠ key) :
    (edges.addChild key child).children other = edges.children other := by
  simp [children, lookup_addChild, differs]

/-- A new key has no children yet. -/
theorem children_append_key (edges : Edges) (top other : Nat) :
    Edges.children (edges ++ [(top, [])]) other = edges.children other := by
  cases found : List.lookup other edges with
  | some recorded => simp [children, List.lookup_append, found]
  | none =>
      simp only [children, List.lookup_append, found, Option.none_or, Option.getD_none,
        List.lookup_cons, List.lookup_nil]
      split
      next => rfl
      next => rfl

end Edges

namespace GraphBuilder

variable {builder : GraphBuilder} {mode : SiblingCommit} {key other id : Nat}
variable {batch values : List Nat}

theorem hasChildLike_eq_any :
    builder.hasChildLike key id =
      (builder.edges.children key).any (alike builder.entry id) := by
  unfold hasChildLike
  congr 1
  funext child
  by_cases same : child = id
  · simp [same, alike]
  · simp [same, sameSite_eq_alike, alike_comm]

/-- A key gets a child unless that repeats one of those it has. -/
theorem children_addChild_self (isKey : key ∈ builder.edges.map (·.1))
    (known : builder.edges.children key = values.eraseDupsBy (alike builder.entry)) :
    (builder.addChild key id).edges.children key =
      (values ++ [id]).eraseDupsBy (alike builder.entry) := by
  rw [eraseDupsBy_concat, ← known, ← hasChildLike_eq_any]
  unfold addChild
  split
  next => rfl
  next => exact Edges.children_addChild_self (Edges.isKey_iff.mpr isKey)

theorem children_addChild_other (differs : other ≠ key) :
    (builder.addChild key id).edges.children other = builder.edges.children other := by
  unfold addChild
  split
  next => rfl
  next => exact Edges.children_addChild_other differs

theorem children_addChildren_self (isKey : key ∈ builder.edges.map (·.1))
    (known : builder.edges.children key = values.eraseDupsBy (alike builder.entry)) :
    (builder.addChildren key batch).edges.children key =
      (values ++ batch).eraseDupsBy (alike builder.entry) := by
  induction batch generalizing builder values with
  | nil => simpa [addChildren] using known
  | cons first rest ih =>
      have sameEntry : (builder.addChild key first).entry = builder.entry := by
        obtain ⟨edges, frame⟩ := addChild_frame builder key first
        rw [frame]
        rfl
      have next := @children_addChild_self builder key first values isKey known
      rw [addChildren_cons, ← sameEntry]
      rw [← sameEntry] at next
      have stays : key ∈ (builder.addChild key first).edges.map (·.1) := by
        rw [addChild_keys]
        exact isKey
      rw [ih stays next, List.append_assoc, List.singleton_append]

theorem entry_addChildren : (builder.addChildren key batch).entry = builder.entry := by
  obtain ⟨edges, frame⟩ := addChildren_frame builder key batch
  rw [frame]
  rfl

theorem children_addChildren_other (differs : other ≠ key) :
    (builder.addChildren key batch).edges.children other = builder.edges.children other := by
  induction batch generalizing builder with
  | nil => rfl
  | cons first rest ih => rw [addChildren_cons, ih, children_addChild_other differs]

end GraphBuilder

/-! ## The key of the entry on top -/

variable {mode : SiblingCommit} {reported : List Event} {builder : GraphBuilder}

/-- The label of an entry that was entered. -/
def enteredLabelOf? : Origin × Entry → Option String
  | (.entered, entry) => some entry.label
  | (.emitted, _) => none

theorem enteredLabels_eq_arena (reported : List Event) :
    enteredLabels reported = (arena reported).filterMap enteredLabelOf? := by
  induction reported with
  | nil => rfl
  | cons event rest ih =>
      cases event with
      | enter entry => simp [arena, Event.numbered, enteredLabelOf?, ih]
      | emit batch =>
          have none : (batch.map (Origin.emitted, ·)).filterMap enteredLabelOf? = [] := by
            simp [List.filterMap_map, Function.comp_def, enteredLabelOf?]
          simp [arena, Event.numbered, none, ih]
      | exit => simp [arena, Event.numbered, ih]

/-- If no label was entered twice, an entry that was entered is known by its label. -/
theorem eq_of_entered_label {first second : Nat} {left right : Entry}
    (distinct : (enteredLabels reported).Nodup)
    (isFirst : (arena reported)[first]? = some (.entered, left))
    (isSecond : (arena reported)[second]? = some (.entered, right))
    (sameLabel : left.label = right.label) : first = second := by
  rw [enteredLabels_eq_arena, List.Nodup, List.pairwise_filterMap,
    List.pairwise_iff_getElem] at distinct
  obtain ⟨boundFirst, atFirst⟩ := List.getElem?_eq_some_iff.mp isFirst
  obtain ⟨boundSecond, atSecond⟩ := List.getElem?_eq_some_iff.mp isSecond
  rcases Nat.lt_trichotomy first second with before | same | after
  · have differ := distinct first second boundFirst boundSecond before left.label
      (by simp [atFirst, enteredLabelOf?]) right.label (by simp [atSecond, enteredLabelOf?])
    exact absurd sameLabel differ
  · exact same
  · have differ := distinct second first boundSecond boundFirst after right.label
      (by simp [atSecond, enteredLabelOf?]) left.label (by simp [atFirst, enteredLabelOf?])
    exact absurd sameLabel.symm differ

theorem WellFormed.label_of_entered (formed : WellFormed reported builder) {id : Nat}
    {entry : Entry} (found : (arena reported)[id]? = some (.entered, entry)) :
    builder.label id = entry.label := by
  rw [GraphBuilder.label, GraphBuilder.entry_eq_getElem?, formed.numbered,
    List.getElem?_map, found]
  rfl

/-- The key that is looked up for an open entry is that entry. -/
theorem WellFormed.keyLike?_eq (formed : WellFormed reported builder)
    (distinct : (enteredLabels reported).Nodup) {top key : Nat} (isOpen : top ∈ builder.stack)
    (found : builder.keyLike? top = some key) : key = top := by
  obtain ⟨keyEntry, atKey⟩ := formed.keys key (List.mem_of_find?_eq_some found)
  obtain ⟨topEntry, atTop⟩ := formed.stacked top isOpen
  have sameLabel := List.find?_some found
  rw [beq_iff_eq, formed.label_of_entered atKey, formed.label_of_entered atTop] at sameLabel
  exact eq_of_entered_label distinct atKey atTop sameLabel

/-- Numbering more entries does not change what is looked up. -/
theorem WellFormed.keyLike?_allocate (formed : WellFormed reported builder) {top : Nat}
    (isOpen : top ∈ builder.stack) (batch : List Entry) :
    (builder.allocate batch).keyLike? top = builder.keyLike? top := by
  apply List.find?_congr
  intro key isKey
  have keyBound := formed.sound.bounded key isKey
  have topBound := formed.stacked_bound top isOpen
  simp only [GraphBuilder.label, GraphBuilder.entry_allocate keyBound,
    GraphBuilder.entry_allocate topBound]

/-! ## Maps and batches -/

/-- A map that holds just what is in some batches. -/
structure Files (mode : SiblingCommit) (batches : Batches) (builder : GraphBuilder) :
    Prop where
  keys : builder.edges.map (·.1) = (batches.map (·.1)).eraseDups
  children : ∀ key, builder.edges.children key =
    (admitted mode (batches.under key)).eraseDupsBy (alike builder.entry)

theorem mem_of_mem_admitted {batches : List (List Nat)} {id : Nat}
    (member : id ∈ admitted mode batches) : ∃ batch ∈ batches, id ∈ batch := by
  cases batches with
  | nil => cases member
  | cons first later =>
      rcases List.mem_append.mp member with inFirst | inLater
      · refine ⟨first, List.mem_cons_self, ?_⟩
        exact @GraphBuilder.mem_of_mem_kept mode id first inFirst
      · obtain ⟨batch, isLater, inBatch⟩ := List.mem_flatten.mp inLater
        exact ⟨batch, List.mem_cons_of_mem first isLater, inBatch⟩

theorem mem_admitted_of_singleton {batches : List (List Nat)} {id : Nat}
    (member : [id] ∈ batches) : id ∈ admitted mode batches := by
  cases batches with
  | nil => cases member
  | cons first later =>
      rcases List.mem_cons.mp member with rfl | isLater
      · apply List.mem_append_left
        cases mode with
        | firstOnly => exact List.mem_cons_self
        | all => exact List.mem_cons_self
      · exact List.mem_append_right _ (List.mem_flatten_of_mem isLater List.mem_cons_self)

namespace Files

variable {batches : Batches}

/-- Numbering more entries leaves a map as it is. -/
theorem allocate (files : Files mode batches builder)
    (bounded : ∀ pair ∈ batches, ∀ id ∈ pair.2, id < builder.entries.size)
    (entries : List Entry) : Files mode batches (builder.allocate entries) where
  keys := files.keys
  children := by
    intro key
    have below : ∀ id ∈ admitted mode (batches.under key), id < builder.entries.size := by
      intro id member
      obtain ⟨batch, isBatch, inBatch⟩ := mem_of_mem_admitted member
      exact bounded (key, batch) (Batches.mem_under.mp isBatch) id inBatch
    apply (files.children key).trans
    apply eraseDupsBy_congr
    intro first isFirst second isSecond
    simp only [alike, GraphBuilder.entry_allocate (below first isFirst),
      GraphBuilder.entry_allocate (below second isSecond)]

/-- A key takes one more batch. -/
theorem addBatch (files : Files mode batches builder) {key : Nat}
    (isKey : key ∈ builder.edges.map (·.1)) (batch : List Nat) :
    Files mode (batches ++ [(key, batch)]) (builder.addChildren key batch) := by
  have known : key ∈ batches.map (·.1) := by
    rw [files.keys] at isKey
    exact List.mem_eraseDups.mp isKey
  have begun : batches.under key ≠ [] := by
    intro none
    exact Batches.under_eq_nil.mp none known
  constructor
  · rw [GraphBuilder.addChildren_keys, files.keys, List.map_append, List.map_singleton,
      eraseDups_concat, if_pos known]
  · intro other
    rw [GraphBuilder.entry_addChildren]
    by_cases isOther : other = key
    · subst isOther
      rw [Batches.under_concat_self, admitted_concat begun]
      exact GraphBuilder.children_addChildren_self isKey (files.children other)
    · rw [Batches.under_concat_other isOther,
        GraphBuilder.children_addChildren_other isOther]
      exact files.children other

/-- The first batch of an entry makes it a key. -/
theorem addKey (files : Files mode batches builder) {top : Nat}
    (isNew : top ∉ builder.edges.map (·.1)) (batch : List Nat) :
    Files mode (batches ++ [(top, batch)])
      ({ builder with edges := builder.edges ++ [(top, [])] }.addChildren top
        (GraphBuilder.kept mode batch)) := by
  have unknown : top ∉ batches.map (·.1) := by
    intro known
    rw [files.keys, List.mem_eraseDups] at isNew
    exact isNew known
  constructor
  · rw [GraphBuilder.addChildren_keys, List.map_append, files.keys, List.map_append,
      List.map_singleton, List.map_singleton, eraseDups_concat, if_neg unknown]
  · intro other
    rw [GraphBuilder.entry_addChildren]
    by_cases isOther : other = top
    · subst isOther
      have none := files.children other
      rw [Batches.under_eq_nil.mpr unknown] at none
      rw [Batches.under_concat_self, Batches.under_eq_nil.mpr unknown, List.nil_append,
        admitted_singleton]
      apply @GraphBuilder.children_addChildren_self
        { builder with edges := builder.edges ++ [(other, [])] } other _ []
      · simp
      · exact (Edges.children_append_key builder.edges other other).trans none
    · rw [Batches.under_concat_other isOther,
        GraphBuilder.children_addChildren_other isOther]
      exact (Edges.children_append_key builder.edges top other).trans (files.children other)

/-- A batch that is recorded while an entry is on top of the stack is a batch of that entry. -/
theorem commit (files : Files mode batches builder) {top : Nat} {rest : List Nat}
    (isTop : builder.stack = top :: rest)
    (own : ∀ key, builder.keyLike? top = some key → key = top) (batch : List Nat) :
    Files mode (batches ++ [(top, batch)]) (builder.commit mode batch) := by
  rcases @GraphBuilder.commit_top builder mode batch top rest isTop with
    ⟨key, isKey, found, added⟩ | ⟨unlike, added⟩
  · rw [added, ← own key found]
    exact files.addBatch isKey batch
  · rw [added]
    apply files.addKey
    intro isKey
    exact unlike top isKey rfl

end Files

end TypeTrace.Flow
