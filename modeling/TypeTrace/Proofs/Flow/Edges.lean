import Mathlib.Data.List.Nodup
import TypeTrace.Proofs.Flow.Builder

/-!
# Edges while a map is being built

`Edges.Sound` is what every single edge of a map has to respect.  Recording a batch keeps
edges sound if the numbers of the batch are new, whatever stands on the stack and whatever
key the batch ends up under.
-/

namespace TypeTrace.Flow

namespace Edges

variable {edges : Edges} {key child size : Nat} {entry : Nat → Entry}

/-! ## Edges around a key -/

theorem addChild_of_not_mem (absent : key ∉ edges.map (·.1)) :
    edges.addChild key child = edges := by
  unfold addChild
  conv => rhs; rw [← List.map_id edges]
  apply List.map_congr_left
  intro pair member
  have differs : pair.1 ≠ key := by
    intro equal
    exact absent (List.mem_map.mpr ⟨pair, member, equal⟩)
  simp [differs]

/-- Among different keys, each one stands in one place, which is the only one to change
when it is given a child. -/
theorem exists_split (distinct : (edges.map (·.1)).Nodup) (isKey : key ∈ edges.map (·.1)) :
    ∃ before recorded after, edges = before ++ (key, recorded) :: after ∧
      edges.children key = recorded ∧
      ∀ child, edges.addChild key child = before ++ (key, recorded ++ [child]) :: after := by
  obtain ⟨⟨first, recorded⟩, member, isFirst⟩ := List.mem_map.mp isKey
  obtain ⟨before, after, rfl⟩ := List.append_of_mem member
  simp only at isFirst
  subst isFirst
  simp only [List.map_append, List.map_cons] at distinct
  have parts := List.nodup_append.mp distinct
  have absentBefore : first ∉ before.map (·.1) := by
    intro member
    exact parts.2.2 first member first List.mem_cons_self rfl
  have absentAfter : first ∉ after.map (·.1) := (List.nodup_cons.mp parts.2.1).1
  refine ⟨before, recorded, after, rfl, ?_, ?_⟩
  · have missing : List.lookup first before = none := by
      rw [List.lookup_eq_none_iff]
      intro pair member
      rw [bne_iff_ne]
      intro equal
      exact absentBefore (List.mem_map.mpr ⟨pair, member, equal.symm⟩)
    simp [Edges.children, List.lookup_append, missing]
  · intro child
    have left := @addChild_of_not_mem before first child absentBefore
    have right := @addChild_of_not_mem after first child absentAfter
    simp only [addChild] at left right
    simp [addChild, left, right]

/-! ## Sound edges -/

/-- Edges that respect the entries of the first `size` numbers: keys differ in label, and
children come later than their key, belong to one key only, and differ from their siblings
in line or label. -/
structure Sound (entry : Nat → Entry) (size : Nat) (edges : Edges) : Prop where
  bounded : ∀ key ∈ edges.map (·.1), key < size
  labelled : ((edges.map (·.1)).map fun id => (entry id).label).Nodup
  ascending : ∀ key child, edges.Leads key child → key < child ∧ child < size
  once : (edges.flatMap (·.2)).Nodup
  apart : ∀ pair ∈ edges, pair.2.Pairwise fun first second =>
    (entry first).sameSite (entry second) = false

namespace Sound

theorem empty : Sound entry size [] := by
  constructor
  · intro key member
    cases member
  · exact List.nodup_nil
  · rintro key child ⟨children, member, _⟩
    cases member
  · exact List.nodup_nil
  · intro pair member
    cases member

theorem keys_nodup (sound : Sound entry size edges) : (edges.map (·.1)).Nodup :=
  List.Nodup.of_map _ sound.labelled

/-- A key and its children in one pair stay what they are when entries are added. -/
theorem grow {larger : Nat → Entry} {bigger : Nat} (sound : Sound entry size edges)
    (agree : ∀ id < size, larger id = entry id) (le : size ≤ bigger) :
    Sound larger bigger edges where
  bounded := by
    intro key member
    exact Nat.lt_of_lt_of_le (sound.bounded key member) le
  labelled := by
    have same : ((edges.map (·.1)).map fun id => (larger id).label) =
        (edges.map (·.1)).map fun id => (entry id).label := by
      apply List.map_congr_left
      intro key member
      rw [agree key (sound.bounded key member)]
    rw [same]
    exact sound.labelled
  ascending := by
    intro key child leads
    have bounds := sound.ascending key child leads
    exact ⟨bounds.1, Nat.lt_of_lt_of_le bounds.2 le⟩
  once := sound.once
  apart := by
    intro pair member
    have below : ∀ child ∈ pair.2, child < size := by
      intro child isChild
      exact (sound.ascending pair.1 child ⟨pair.2, member, isChild⟩).2
    refine (sound.apart pair member).imp_of_mem ?_
    intro first second isFirst isSecond differ
    rw [agree first (below first isFirst), agree second (below second isSecond)]
    exact differ

theorem addKey {top : Nat} (sound : Sound entry size edges) (bound : top < size)
    (unlike : ∀ key ∈ edges.map (·.1), (entry key).label ≠ (entry top).label) :
    Sound entry size (edges ++ [(top, [])]) where
  bounded := by
    intro key member
    simp only [List.map_append, List.map_cons, List.map_nil, List.mem_append,
      List.mem_singleton] at member
    rcases member with member | rfl
    · exact sound.bounded key member
    · exact bound
  labelled := by
    rw [List.map_append, List.map_append, List.nodup_append]
    refine ⟨sound.labelled, List.nodup_singleton _, ?_⟩
    intro label known other isNew
    obtain ⟨key, member, rfl⟩ := List.mem_map.mp known
    rw [List.mem_singleton.mp isNew]
    exact unlike key member
  ascending := by
    intro key child leads
    exact sound.ascending key child (GraphBuilder.leads_append_key.mp leads)
  once := by simpa using sound.once
  apart := by
    intro pair member
    rcases List.mem_append.mp member with member | isNew
    · exact sound.apart pair member
    · cases List.mem_singleton.mp isNew
      exact List.Pairwise.nil

theorem addChild (sound : Sound entry size edges) (isKey : key ∈ edges.map (·.1))
    (later : key < child) (bound : child < size) (fresh : child ∉ edges.flatMap (·.2))
    (unlike : ∀ other ∈ edges.children key,
      (entry other).sameSite (entry child) = false) :
    Sound entry size (edges.addChild key child) where
  bounded := by
    rw [keys_addChild]
    exact sound.bounded
  labelled := by
    rw [keys_addChild]
    exact sound.labelled
  ascending := by
    intro other found leads
    rcases leads_addChild.mp leads with before | ⟨rfl, rfl, _⟩
    · exact sound.ascending other found before
    · exact ⟨later, bound⟩
  once := by
    obtain ⟨before, recorded, after, shape, _, changed⟩ :=
      exists_split sound.keys_nodup isKey
    have once := sound.once
    rw [shape] at once fresh
    rw [changed child]
    simp only [List.flatMap_append, List.flatMap_cons] at once fresh ⊢
    have moved : (before.flatMap (·.2) ++ (recorded ++ [child] ++ after.flatMap (·.2))).Perm
        (child :: (before.flatMap (·.2) ++ (recorded ++ after.flatMap (·.2)))) := by
      rw [List.append_assoc, ← List.append_assoc _ recorded, ← List.append_assoc _ recorded]
      exact List.perm_middle
    rw [moved.nodup_iff]
    exact List.nodup_cons.mpr ⟨fresh, once⟩
  apart := by
    obtain ⟨before, recorded, after, rfl, isRecorded, changed⟩ :=
      exists_split sound.keys_nodup isKey
    intro pair member
    rw [changed child] at member
    rcases List.mem_append.mp member with member | member
    · exact sound.apart pair (List.mem_append_left _ member)
    · rcases List.mem_cons.mp member with rfl | member
      · rw [List.pairwise_append]
        refine ⟨?_, List.pairwise_singleton _ _, ?_⟩
        · exact sound.apart (key, recorded) (List.mem_append_right _ List.mem_cons_self)
        · intro other isChild added isNew
          rw [List.mem_singleton.mp isNew]
          rw [← isRecorded] at isChild
          exact unlike other isChild
      · exact sound.apart pair
          (List.mem_append_right _ (List.mem_cons_of_mem _ member))

end Sound

end Edges

namespace GraphBuilder

variable {builder : GraphBuilder} {mode : SiblingCommit} {key id size : Nat}
variable {batch : List Nat}

/-! ## Recording keeps edges sound -/

/-- A child that is refused is like one that is there, and a child that is added is not. -/
theorem unlike_of_hasChildLike {builder : GraphBuilder}
    (unlike : builder.hasChildLike key id = false) :
    ∀ other ∈ builder.edges.children key,
      (builder.entry other).sameSite (builder.entry id) = false := by
  intro other member
  have differs := List.any_eq_false.mp unlike other member
  simp only [Bool.or_eq_true, beq_iff_eq, not_or, Bool.not_eq_true] at differs
  exact differs.2

theorem sound_addChild (sound : builder.edges.Sound builder.entry size)
    (isKey : key ∈ builder.edges.map (·.1)) (later : key < id) (bound : id < size)
    (fresh : id ∉ builder.edges.flatMap (·.2)) :
    (builder.addChild key id).edges.Sound builder.entry size := by
  unfold addChild
  split
  next => exact sound
  next unlike =>
    exact sound.addChild isKey later bound fresh
      (unlike_of_hasChildLike (Bool.eq_false_iff.mpr unlike))

theorem sound_addChildren (sound : builder.edges.Sound builder.entry size)
    (isKey : key ∈ builder.edges.map (·.1)) (distinct : batch.Nodup)
    (fresh : ∀ id ∈ batch, key < id ∧ id < size ∧ id ∉ builder.edges.flatMap (·.2)) :
    (builder.addChildren key batch).edges.Sound builder.entry size := by
  induction batch generalizing builder with
  | nil => exact sound
  | cons first rest ih =>
      obtain ⟨later, bound, absent⟩ := fresh first List.mem_cons_self
      have next := sound_addChild sound isKey later bound absent
      have sameEntry : (builder.addChild key first).entry = builder.entry := by
        obtain ⟨edges, frame⟩ := addChild_frame builder key first
        rw [frame]
        rfl
      rw [addChildren_cons, ← sameEntry]
      rw [← sameEntry] at next
      refine ih next ?_ (List.nodup_cons.mp distinct).2 ?_
      · rw [addChild_keys]
        exact isKey
      · intro id member
        obtain ⟨later, bound, absent⟩ := fresh id (List.mem_cons_of_mem first member)
        refine ⟨later, bound, ?_⟩
        intro isChild
        obtain ⟨other, leads⟩ := Edges.mem_values_iff.mp isChild
        rcases leads_of_leads_addChild leads with before | rfl
        · exact absent (Edges.mem_values_iff.mpr ⟨other, before⟩)
        · exact (List.nodup_cons.mp distinct).1 member

/-- Where a batch goes while something is open: to the key with the label of the entry on
top, or to that entry as a new key. -/
theorem commit_top {top : Nat} {rest : List Nat} (isTop : builder.stack = top :: rest) :
    (∃ key ∈ builder.edges.map (·.1), builder.keyLike? top = some key ∧
      builder.commit mode batch = builder.addChildren key batch) ∨
    ((∀ key ∈ builder.edges.map (·.1), builder.label key ≠ builder.label top) ∧
      builder.commit mode batch =
        { builder with edges := builder.edges ++ [(top, [])] }.addChildren top
          (kept mode batch)) := by
  cases found : builder.keyLike? top with
  | some key =>
      refine .inl ⟨key, List.mem_of_find?_eq_some found, rfl, ?_⟩
      simp only [commit, isTop, found]
  | none =>
      refine .inr ⟨?_, by simp only [commit, isTop, found]⟩
      intro key member
      have differs := List.find?_eq_none.mp found key member
      simpa using differs

theorem kept_sublist (mode : SiblingCommit) (batch : List Nat) :
    (kept mode batch).Sublist batch := by
  cases mode with
  | firstOnly => exact List.take_sublist 1 batch
  | all => exact List.Sublist.refl batch

/-- A batch of new numbers is recorded soundly. -/
theorem sound_commit (sound : builder.edges.Sound builder.entry size)
    (stacked : ∀ id ∈ builder.stack, id < size) (le : size ≤ builder.entries.size)
    (distinct : batch.Nodup)
    (fresh : ∀ id ∈ batch, size ≤ id ∧ id < builder.entries.size) :
    (builder.commit mode batch).edges.Sound builder.entry builder.entries.size := by
  have grown : builder.edges.Sound builder.entry builder.entries.size :=
    sound.grow (fun _ _ => rfl) le
  have unused : ∀ id ∈ batch, id ∉ builder.edges.flatMap (·.2) := by
    intro id member isChild
    obtain ⟨key, leads⟩ := Edges.mem_values_iff.mp isChild
    have before := (sound.ascending key id leads).2
    have after := (fresh id member).1
    omega
  cases isStack : builder.stack with
  | nil => simpa [commit, isStack] using grown
  | cons top rest =>
      rcases @commit_top builder mode batch top rest isStack with
        ⟨key, isKey, _, added⟩ | ⟨unlike, added⟩
      · rw [added]
        apply sound_addChildren grown isKey distinct
        intro id member
        have before := sound.bounded key isKey
        have after := fresh id member
        exact ⟨by omega, after.2, unused id member⟩
      · have topBound : top < size := stacked top (isStack ▸ List.mem_cons_self)
        have extended : Edges.Sound builder.entry builder.entries.size
            (builder.edges ++ [(top, [])]) := grown.addKey (by omega) unlike
        rw [added]
        refine @sound_addChildren { builder with edges := builder.edges ++ [(top, [])] } top
          _ _ extended (by simp) (distinct.sublist (kept_sublist mode batch)) ?_
        intro id member
        have given := mem_of_mem_kept member
        have after := fresh id given
        refine ⟨by omega, after.2, ?_⟩
        simpa using unused id given

theorem addChildren_keys :
    (builder.addChildren key batch).edges.map (·.1) = builder.edges.map (·.1) := by
  induction batch generalizing builder with
  | nil => rfl
  | cons id rest ih => rw [addChildren_cons, ih, addChild_keys]

/-- Only the entry on top of the stack can become a key. -/
theorem mem_keys_commit (isKey : key ∈ (builder.commit mode batch).edges.map (·.1)) :
    key ∈ builder.edges.map (·.1) ∨ key ∈ builder.stack := by
  cases isStack : builder.stack with
  | nil =>
      simp only [commit, isStack] at isKey
      exact .inl isKey
  | cons top rest =>
      rcases @commit_top builder mode batch top rest isStack with
        ⟨_, _, _, added⟩ | ⟨_, added⟩
      · rw [added, addChildren_keys] at isKey
        exact .inl isKey
      · rw [added, addChildren_keys] at isKey
        simp only [List.map_append, List.map_cons, List.map_nil, List.mem_append,
          List.mem_singleton] at isKey
        rcases isKey with known | rfl
        · exact .inl known
        · exact .inr List.mem_cons_self

/-! ## Entering is recording and opening -/

theorem addChild_withRoot (root : Option Nat) :
    ({ builder with root := root } : GraphBuilder).addChild key id =
      { builder.addChild key id with root := root } := by
  have sameTest : ({ builder with root := root } : GraphBuilder).hasChildLike key id =
      builder.hasChildLike key id := rfl
  unfold addChild
  rw [sameTest]
  split <;> rfl

theorem addChildren_withRoot (root : Option Nat) :
    ({ builder with root := root } : GraphBuilder).addChildren key batch =
      { builder.addChildren key batch with root := root } := by
  induction batch generalizing builder with
  | nil => rfl
  | cons id rest ih => rw [addChildren_cons, addChild_withRoot, ih, addChildren_cons]

theorem commit_withRoot (root : Option Nat) :
    ({ builder with root := root } : GraphBuilder).commit mode batch =
      { builder.commit mode batch with root := root } := by
  obtain ⟨entries, edges, stack, former⟩ := builder
  cases stack with
  | nil => rfl
  | cons top rest =>
      have sameLookup : GraphBuilder.keyLike? ⟨entries, edges, top :: rest, root⟩ top =
          GraphBuilder.keyLike? ⟨entries, edges, top :: rest, former⟩ top := rfl
      simp only [commit, sameLookup]
      split
      next => exact @addChildren_withRoot ⟨entries, edges, top :: rest, former⟩ _ _ root
      next => exact @addChildren_withRoot ⟨entries, _, top :: rest, former⟩ _ _ root

/-- To enter an entry is to record it by itself, as an emitted one, and to open it. -/
theorem enter_eq_emit (mode : SiblingCommit) (builder : GraphBuilder) (entry : Entry) :
    builder.enter mode entry =
      { builder.emit mode [entry] with
        root := builder.root.or (some builder.entries.size)
        stack := builder.entries.size :: builder.stack } := by
  simp only [enter, commit_withRoot, emit, freshIds, List.length_singleton, List.range'_one,
    commit_stack]
  rfl

end GraphBuilder

end TypeTrace.Flow
