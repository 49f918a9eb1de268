import TypeTrace.Proofs.Syntax.Sight
import TypeTrace.Proofs.Syntax.Visits
import TypeTrace.Syntax.Scope

/-!
# Laminar trees

In a laminar tree every part lies in its whole and siblings have no offset in common.  A node
that does not cover an offset then has nothing below it that does, and at most one sibling
covers it.  So nothing is out of sight: the path to an offset is all that covers it
(`filter_covers_eq`), and the innermost function, class and scope on the path are the innermost
ones there are.
-/

namespace TypeTrace.Syntax

/-! ## Ranges -/

namespace Span

/-- A range all of whose offsets lie in another. -/
def Within (inner outer : Span) : Prop :=
  ∀ offset, inner.contains offset = true → outer.contains offset = true

/-- Ranges without an offset in common. -/
def Apart (left right : Span) : Prop :=
  ∀ offset, left.contains offset = true → right.contains offset = false

theorem contains_iff {span : Span} {offset : Nat} :
    span.contains offset = true ↔ span.start ≤ offset ∧ offset < span.stop := by
  simp [contains]

theorem Within.trans {inner middle outer : Span} (first : inner.Within middle)
    (second : middle.Within outer) : inner.Within outer := by
  intro offset inside
  exact second offset (first offset inside)

theorem within_iff {inner outer : Span} :
    inner.Within outer ↔
      (inner.start < inner.stop → outer.start ≤ inner.start ∧ inner.stop ≤ outer.stop) := by
  simp only [Within, contains_iff]
  constructor
  · intro within nonempty
    have atStart := within inner.start (by omega)
    have atEnd := within (inner.stop - 1) (by omega)
    omega
  · intro bounds offset inside
    omega

theorem apart_iff {left right : Span} :
    left.Apart right ↔ min left.stop right.stop ≤ max left.start right.start := by
  simp only [Apart, ← Bool.not_eq_true, contains_iff]
  constructor
  · intro apart
    by_contra overlap
    exact apart (max left.start right.start) (by omega) (by omega)
  · intro bounds offset inLeft inRight
    omega

instance (inner outer : Span) : Decidable (inner.Within outer) :=
  decidable_of_iff _ within_iff.symm

instance (left right : Span) : Decidable (left.Apart right) :=
  decidable_of_iff _ apart_iff.symm

end Span

/-! ## Laminar families of nodes -/

/-- Nodes no two of which cover one offset. -/
def Separate (nodes : List Node) : Prop :=
  nodes.Pairwise fun left right => left.span.Apart right.span

instance (nodes : List Node) : Decidable (Separate nodes) :=
  inferInstanceAs (Decidable (nodes.Pairwise _))

/-- A hereditary family of nodes whose parts lie in them and apart from each other. -/
structure LaminarFamily (family : Node → Prop) : Prop where
  hereditary : Hereditary family
  nested : ∀ ⦃node part : Node⦄, family node → part ∈ node.children →
    part.span.Within node.span
  separate : ∀ ⦃node : Node⦄, family node → Separate node.children

/-- A suite in which parts lie in their wholes and siblings apart from each other, within the
offsets that can be referred to. -/
structure Laminar (suite : Suite) : Prop where
  representable : ∀ visit ∈ moduleVisits suite, visit.node.span.stop ≤ maxOffset
  nested : ∀ visit ∈ moduleVisits suite, ∀ part ∈ visit.node.children,
    part.span.Within visit.node.span
  separate : Separate (Node.ofSuite suite)
  separateParts : ∀ visit ∈ moduleVisits suite, Separate visit.node.children

theorem Laminar.family {suite : Suite} (laminar : Laminar suite) :
    LaminarFamily fun node => ∃ visit ∈ moduleVisits suite, visit.node = node where
  hereditary := moduleVisits_hereditary suite
  nested := by
    intro node part visited isPart
    obtain ⟨visit, member, rfl⟩ := visited
    exact laminar.nested visit member part isPart
  separate := by
    intro node visited
    obtain ⟨visit, member, rfl⟩ := visited
    exact laminar.separateParts visit member

variable {family : Node → Prop} {offset position : Nat} {address : List Nat}
variable {ancestors nodes : List Node} {occurrence : Occurrence}

/-- A node that does not cover an offset has no part that does. -/
theorem LaminarFamily.parts_uncovered (laminar : LaminarFamily family) {node : Node}
    (isFamily : family node) (uncovered : node.covers offset = false) :
    ∀ part ∈ node.children, part.covers offset = false := by
  intro part isPart
  by_contra covered
  rw [Bool.not_eq_false] at covered
  have covers : node.covers offset = true := laminar.nested isFamily isPart offset covered
  cases uncovered.symm.trans covers

/-- Nothing at or below nodes that do not cover an offset covers it. -/
theorem LaminarFamily.filter_covers_eq_nil (laminar : LaminarFamily family)
    (within : ∀ node ∈ nodes, family node)
    (uncovered : ∀ node ∈ nodes, node.covers offset = false) :
    (occurrencesFrom address ancestors position nodes).filter (·.node.covers offset) = [] := by
  induction address, ancestors, position, nodes using occurrencesFrom.induct with
  | case1 => simp [occurrencesFrom]
  | case2 address ancestors position node rest below after =>
      obtain ⟨isFamily, withinRest⟩ := List.forall_mem_cons.mp within
      obtain ⟨isUncovered, uncoveredRest⟩ := List.forall_mem_cons.mp uncovered
      have nothingBelow := below (fun _ isPart => laminar.hereditary isFamily isPart)
        (laminar.parts_uncovered isFamily isUncovered)
      rw [occurrencesFrom, List.filter_cons, List.filter_append, nothingBelow,
        after withinRest uncoveredRest]
      simp [isUncovered]

/-- In a laminar family, all that covers an offset is in sight. -/
theorem LaminarFamily.filter_covers_eq (laminar : LaminarFamily family)
    (within : ∀ node ∈ nodes, family node) (separate : Separate nodes) :
    (occurrencesFrom address ancestors position nodes).filter (·.node.covers offset) =
      sightedFrom offset address ancestors position nodes := by
  induction address, ancestors, position, nodes using occurrencesFrom.induct with
  | case1 => simp [occurrencesFrom, sightedFrom]
  | case2 address ancestors position node rest below after =>
      obtain ⟨isFamily, withinRest⟩ := List.forall_mem_cons.mp within
      have withinParts : ∀ part ∈ node.children, family part := by
        intro part isPart
        exact laminar.hereditary isFamily isPart
      have apart := List.pairwise_cons.mp separate
      rw [occurrencesFrom, sightedFrom, List.filter_cons, List.filter_append]
      by_cases covers : node.covers offset = true
      · have uncovered : ∀ sibling ∈ rest, sibling.covers offset = false := by
          intro sibling isSibling
          exact apart.1 sibling isSibling offset covers
        rw [if_pos covers, if_pos covers, below withinParts (laminar.separate isFamily),
          laminar.filter_covers_eq_nil withinRest uncovered, List.append_nil]
      · have uncovered := laminar.parts_uncovered isFamily (by simpa using covers)
        rw [if_neg covers, if_neg covers, laminar.filter_covers_eq_nil withinParts uncovered,
          List.nil_append, after withinRest apart.2]

/-! ## The path to an offset -/

/-- The occurrences in a suite that cover an offset. -/
def occurrencesAround (suite : Suite) (offset : Nat) : List Occurrence :=
  (occurrences suite).filter (·.node.covers offset)

theorem map_node_occurrencesAround (suite : Suite) (offset : Nat) :
    (occurrencesAround suite offset).map (·.node) =
      ((moduleVisits suite).map (·.node)).filter (·.covers offset) := by
  rw [moduleVisits_eq, occurrencesAround, List.map_map, List.filter_map]
  rfl

theorem mem_occurrencesAround {suite : Suite} :
    occurrence ∈ occurrencesAround suite offset ↔
      occurrence ∈ occurrences suite ∧ occurrence.node.covers offset = true := by
  rw [occurrencesAround, List.mem_filter]

theorem visit_mem_moduleVisits {suite : Suite} (listed : occurrence ∈ occurrences suite) :
    occurrence.visit ∈ moduleVisits suite := by
  rw [moduleVisits_eq]
  exact List.mem_map.mpr ⟨occurrence, listed, rfl⟩

theorem Laminar.sightedPath_eq {suite : Suite} (laminar : Laminar suite) (offset : Nat) :
    sightedPath suite offset = occurrencesAround suite offset := by
  by_cases representable : offset ≤ maxOffset
  · rw [sightedPath, if_pos representable, occurrencesAround, occurrences,
      laminar.family.filter_covers_eq ?_ laminar.separate]
    intro node isStatement
    exact ⟨⟨node, false⟩, mem_walk_of_mem_pending (List.mem_map.mpr ⟨node, isStatement, rfl⟩),
      rfl⟩
  · rw [sightedPath, if_neg representable, eq_comm, List.eq_nil_iff_forall_not_mem]
    intro occurrence member
    obtain ⟨listed, covers⟩ := mem_occurrencesAround.mp member
    have bound := laminar.representable occurrence.visit (visit_mem_moduleVisits listed)
    have inside := (Span.contains_iff.mp covers).2
    exact representable (Nat.le_of_lt (Nat.lt_of_lt_of_le inside bound))

/-! ## Innermost constructs -/

/-- An occurrence around another one, by its address and by its range. -/
structure Occurrence.Encloses (outer inner : Occurrence) : Prop where
  address : outer.address <+: inner.address
  span : inner.node.span.Within outer.node.span

theorem Occurrence.Encloses.refl (occurrence : Occurrence) : occurrence.Encloses occurrence :=
  ⟨List.prefix_refl _, fun _ inside => inside⟩

instance : Trans Occurrence.Encloses Occurrence.Encloses Occurrence.Encloses where
  trans first second := ⟨first.address.trans second.address, second.span.trans first.span⟩

/-- In a laminar suite, of what covers an offset the earlier encloses the later. -/
theorem Laminar.encloses {suite : Suite} (laminar : Laminar suite) (offset : Nat) :
    (occurrencesAround suite offset).Pairwise Occurrence.Encloses := by
  rw [← List.isChain_iff_pairwise, ← laminar.sightedPath_eq]
  apply List.IsChain.imp_of_mem_imp ?_ (sightedPath_isChain suite offset)
  intro whole part isWhole _ isPart
  obtain ⟨position, isAddress, isNode⟩ := isPart.position
  have visited : whole.visit ∈ moduleVisits suite :=
    visit_mem_moduleVisits ((sightedPath_sublist suite offset).subset isWhole)
  refine ⟨?_, laminar.nested whole.visit visited part.node (List.mem_of_getElem? isNode)⟩
  rw [isAddress]
  exact List.prefix_append _ _

/-- What can be read off the innermost node around an offset that can be read. -/
inductive Innermost {α : Type} (suite : Suite) (offset : Nat) (read : Node → Option α) :
    Option α → Prop where
  | found {value : α} {occurrence : Occurrence}
      (around : occurrence ∈ occurrencesAround suite offset)
      (reads : read occurrence.node = some value)
      (innermost : ∀ other ∈ occurrencesAround suite offset,
        (read other.node).isSome = true → other.Encloses occurrence) :
      Innermost suite offset read (some value)
  | absent (unread : ∀ occurrence ∈ occurrencesAround suite offset,
        read occurrence.node = none) :
      Innermost suite offset read none

/-- The last node on the path that can be read is the innermost one there is. -/
theorem Laminar.innermost {α : Type} {suite : Suite} (laminar : Laminar suite) (offset : Nat)
    (read : Node → Option α) :
    Innermost suite offset read ((locate suite offset).reverse.findSome? read) := by
  rw [← map_node_sightedPath, laminar.sightedPath_eq, ← List.map_reverse, List.findSome?_map]
  cases found : (occurrencesAround suite offset).reverse.findSome? (read ∘ (·.node)) with
  | none =>
      refine .absent ?_
      intro occurrence around
      exact List.findSome?_eq_none_iff.mp found occurrence (List.mem_reverse.mpr around)
  | some value =>
      obtain ⟨inner, occurrence, outer, isReverse, reads, unread⟩ :=
        List.findSome?_eq_some_iff.mp found
      have isPath : occurrencesAround suite offset =
          outer.reverse ++ occurrence :: inner.reverse := by
        rw [← List.reverse_reverse (occurrencesAround suite offset), isReverse]
        simp
      have ordered := laminar.encloses offset
      rw [isPath, List.pairwise_append] at ordered
      refine .found (by simp [isPath]) reads ?_
      intro other around isRead
      rw [isPath, List.mem_append, List.mem_cons] at around
      rcases around with isOuter | rfl | isInner
      · exact ordered.2.2 other isOuter occurrence List.mem_cons_self
      · exact .refl other
      · have isNone := unread other (List.mem_reverse.mp isInner)
        simp only [Function.comp_apply] at isNone
        simp [isNone] at isRead

/-- In a laminar suite, the path to any offset is what a walk comes by and the offset lies in,
each node a part of the one before, and the function, class and scope on it are the innermost
ones around the offset. -/
theorem locate_of_laminar {suite : Suite} (laminar : Laminar suite) (offset : Nat) :
    locate suite offset = ((moduleVisits suite).map (·.node)).filter (·.covers offset) ∧
    locate suite offset = (occurrencesAround suite offset).map (·.node) ∧
    (occurrencesAround suite offset).IsChain (fun whole part => part.IsPartOf whole) ∧
    Innermost suite offset Node.function? (enclosingFunction? (locate suite offset)) ∧
    Innermost suite offset Node.className? (enclosingClass? (locate suite offset)) ∧
    (∃ scope, Innermost suite offset Node.scope? scope ∧
      scopeOwner (locate suite offset) = scope.getD .module) := by
  have isPath : locate suite offset = (occurrencesAround suite offset).map (·.node) := by
    rw [← laminar.sightedPath_eq, map_node_sightedPath]
  refine ⟨?_, isPath, ?_, laminar.innermost offset Node.function?,
    laminar.innermost offset Node.className?, ?_⟩
  · rw [isPath, map_node_occurrencesAround]
  · rw [← laminar.sightedPath_eq]
    exact sightedPath_isChain suite offset
  · exact ⟨_, laminar.innermost offset Node.scope?, rfl⟩

/-- A function without a name, `lambda v: v`. -/
def identity : Expr :=
  .lambda ⟨41, 52⟩ [⟨⟨⟨48, 49⟩, .positional, "v", none⟩, none⟩] (.name ⟨51, 52⟩ "v" .load)

/-- A method that returns a function:
```
class A:
    def f(self):
        return lambda v: v
``` -/
def identityMethod : Stmt :=
  .functionDef ⟨13, 52⟩ false "f" [⟨⟨⟨19, 23⟩, .positional, "self", none⟩, none⟩] none []
    [.return ⟨34, 52⟩ (some identity)]

/-- The class of the method. -/
def identityClass : Stmt := .classDef ⟨0, 52⟩ "A" [] [] [] [identityMethod]

/-- At the last `v` the class, the method, the `return`, the function it returns and the name are
around the offset, and the scope is the function without a name. -/
theorem locate_identity :
    Laminar [identityClass] ∧
      ((moduleVisits [identityClass]).map (·.node)).filter (·.covers 51) =
        [.stmt identityClass, .stmt identityMethod, .stmt (.return ⟨34, 52⟩ (some identity)),
          .expr identity, .expr (.name ⟨51, 52⟩ "v" .load)] ∧
      Innermost [identityClass] 51 Node.className? (some "A") ∧
      Innermost [identityClass] 51 Node.scope? (some .lambda) := by
  have visits : moduleVisits [identityClass] =
      [⟨.stmt identityClass, false⟩, ⟨.stmt identityMethod, false⟩,
        ⟨.param ⟨⟨19, 23⟩, .positional, "self", none⟩, false⟩,
        ⟨.stmt (.return ⟨34, 52⟩ (some identity)), false⟩, ⟨.expr identity, false⟩,
        ⟨.param ⟨⟨48, 49⟩, .positional, "v", none⟩, false⟩,
        ⟨.expr (.name ⟨51, 52⟩ "v" .load), false⟩] := by cbv
  have laminar : Laminar [identityClass] := by
    constructor
    · rw [visits]
      decide
    · rw [visits]
      decide
    · decide
    · rw [visits]
      decide
  have path : locate [identityClass] 51 =
      [.stmt identityClass, .stmt identityMethod, .stmt (.return ⟨34, 52⟩ (some identity)),
        .expr identity, .expr (.name ⟨51, 52⟩ "v" .load)] := by cbv
  have located := locate_of_laminar laminar 51
  rw [path] at located
  obtain ⟨isFilter, _, _, _, isClass, scope, isScope, owner⟩ := located
  refine ⟨laminar, isFilter.symm, isClass, ?_⟩
  cases scope with
  | none => cases owner
  | some scope =>
      cases owner
      exact isScope

end TypeTrace.Syntax
