import Mathlib.Data.List.Chain
import TypeTrace.Proofs.Syntax.Preorder
import TypeTrace.Syntax.Locate

/-!
# What a descent comes by

A descent goes into the first part that covers an offset and never comes back.  It comes by
an occurrence exactly if the offset lies in the node and in every node around it, and in no
elder sibling of any of these (`mem_sightedPath`).  Whatever else covers the offset is out of
sight: it stands outside a node around it, as decorators do, or behind a sibling with a range
in common, as the fields of a formatted string do.  Where ranges narrow on the way down, only
what is out of sight can be further in than the end of the path (`asDeepAs_of_narrowing`).
-/

namespace TypeTrace.Syntax

/-! ## Elder siblings -/

/-- The first address leads to an elder sibling of the node at the second, or of a node
around it. -/
inductive Elder : (first second : List Nat) → Prop where
  | here {step later : Nat} {way : List Nat} (earlier : step < later) :
      Elder [step] (later :: way)
  | inside {step : Nat} {first second : List Nat} (elder : Elder first second) :
      Elder (step :: first) (step :: second)

theorem elder_cons_cons {step later : Nat} {first second : List Nat} :
    Elder (step :: first) (later :: second) ↔
      (first = [] ∧ step < later) ∨ (step = later ∧ Elder first second) := by
  constructor
  · intro elder
    cases elder with
    | here earlier => exact .inl ⟨rfl, earlier⟩
    | inside elder => exact .inr ⟨rfl, elder⟩
  · rintro (⟨rfl, earlier⟩ | ⟨rfl, elder⟩)
    · exact .here earlier
    · exact .inside elder

theorem not_elder_nil {first : List Nat} : ¬ Elder first [] := by
  intro elder
  cases elder

theorem not_nil_elder {second : List Nat} : ¬ Elder [] second := by
  intro elder
  cases elder

theorem elder_append (common : List Nat) {first second : List Nat} :
    Elder (common ++ first) (common ++ second) ↔ Elder first second := by
  induction common with
  | nil => rfl
  | cons step common ih =>
      rw [List.cons_append, List.cons_append, elder_cons_cons, ih]
      simp

/-! ## Occurrences in sight -/

/-- The occurrence of a list that a descent to an offset comes by. -/
structure Sighted (listed : List Occurrence) (offset : Nat) (occurrence : Occurrence) :
    Prop where
  covers : occurrence.node.covers offset = true
  around : ∀ node ∈ occurrence.ancestors, node.covers offset = true
  /-- Nothing that covers the offset comes before the node or one around it. -/
  first : ∀ other ∈ listed, Elder other.address occurrence.address →
    other.node.covers offset = false

theorem Sighted.mono {listed fewer : List Occurrence} {offset : Nat}
    {occurrence : Occurrence} (sighted : Sighted listed offset occurrence)
    (subset : fewer ⊆ listed) : Sighted fewer offset occurrence where
  covers := sighted.covers
  around := sighted.around
  first other member := sighted.first other (subset member)

theorem descend_of_find?_none {offset : Nat} {candidates : List Node}
    (missed : candidates.find? (·.covers offset) = none) :
    descend offset candidates = [] := by
  rw [descend]
  split
  next => rfl
  next found => cases missed.symm.trans found

theorem descend_of_find?_some {offset : Nat} {candidates : List Node} {node : Node}
    (found : candidates.find? (·.covers offset) = some node) :
    descend offset candidates = node :: descend offset node.children := by
  rw [descend]
  split
  next missed => cases missed.symm.trans found
  next other foundOther =>
    cases found.symm.trans foundOther
    rfl

theorem descend_cons (offset : Nat) (node : Node) (rest : List Node) :
    descend offset (node :: rest) =
      if node.covers offset then node :: descend offset node.children
      else descend offset rest := by
  by_cases covers : node.covers offset = true
  · rw [if_pos covers]
    apply descend_of_find?_some
    simp [covers]
  · rw [if_neg covers]
    have passed : (node :: rest).find? (·.covers offset) = rest.find? (·.covers offset) := by
      simp [covers]
    cases found : rest.find? (·.covers offset) with
    | none =>
        rw [descend_of_find?_none (passed.trans found), descend_of_find?_none found]
    | some first =>
        rw [descend_of_find?_some (passed.trans found), descend_of_find?_some found]

/-- The path of a descent, each node where it stands.  The address and the ancestors are
those of the list. -/
def sightedFrom (offset : Nat) (address : List Nat) (ancestors : List Node) (position : Nat) :
    List Node → List Occurrence
  | [] => []
  | node :: rest =>
      if node.covers offset then
        ⟨address ++ [position], ancestors, node⟩ ::
          sightedFrom offset (address ++ [position]) (node :: ancestors) 0 node.children
      else
        sightedFrom offset address ancestors (position + 1) rest
termination_by nodes => Node.sizes nodes
decreasing_by
  all_goals
    have smaller := Node.sizes_children_lt node
    simp only [Node.sizes_cons]
    omega

variable {offset position : Nat} {address : List Nat} {ancestors nodes : List Node}
variable {occurrence : Occurrence}

theorem map_node_sightedFrom (offset : Nat) (address : List Nat) (ancestors : List Node)
    (position : Nat) (nodes : List Node) :
    (sightedFrom offset address ancestors position nodes).map (·.node) =
      descend offset nodes := by
  induction address, ancestors, position, nodes using sightedFrom.induct offset with
  | case1 => rw [sightedFrom, descend_of_find?_none rfl, List.map_nil]
  | case2 address ancestors position node rest covers ih =>
      rw [sightedFrom, if_pos covers, List.map_cons, ih, descend_cons, if_pos covers]
  | case3 address ancestors position node rest passed ih =>
      rw [sightedFrom, if_neg passed, ih, descend_cons, if_neg passed]

theorem sightedFrom_sublist (offset : Nat) (address : List Nat) (ancestors : List Node)
    (position : Nat) (nodes : List Node) :
    (sightedFrom offset address ancestors position nodes).Sublist
      (occurrencesFrom address ancestors position nodes) := by
  induction address, ancestors, position, nodes using sightedFrom.induct offset with
  | case1 => simp [sightedFrom]
  | case2 address ancestors position node rest covers ih =>
      rw [sightedFrom, if_pos covers, occurrencesFrom]
      exact (ih.trans (List.sublist_append_left _ _)).cons_cons _
  | case3 address ancestors position node rest passed ih =>
      rw [sightedFrom, if_neg passed, occurrencesFrom]
      exact (ih.trans (List.sublist_append_right _ _)).cons _

/-- Where a node stands, it is an elder sibling of what stands at later positions. -/
theorem elder_of_mem_later
    (later : occurrence ∈ occurrencesFrom address ancestors (position + 1) nodes) :
    Elder (address ++ [position]) occurrence.address := by
  obtain ⟨step, way, further, isAddress⟩ := exists_way_of_mem later
  rw [isAddress, elder_append, elder_cons_cons]
  exact .inl ⟨rfl, further⟩

/-- In a list, only what stands below the first node can be elder than something there. -/
theorem mem_below_of_elder {node : Node} {rest : List Node} {way : List Nat}
    (member : occurrence ∈ occurrencesFrom address ancestors position (node :: rest))
    (elder : Elder occurrence.address (address ++ position :: way)) :
    occurrence ∈ occurrencesFrom (address ++ [position]) (node :: ancestors) 0
      node.children := by
  rw [occurrencesFrom, List.mem_cons, List.mem_append] at member
  rcases member with rfl | inside | later
  · rw [elder_append, elder_cons_cons] at elder
    rcases elder with ⟨_, earlier⟩ | ⟨_, elder⟩
    · exact absurd earlier (Nat.lt_irrefl position)
    · exact absurd elder not_nil_elder
  · exact inside
  · obtain ⟨step, other, further, isAddress⟩ := exists_way_of_mem later
    rw [isAddress, elder_append, elder_cons_cons] at elder
    omega

/-- What stands below a node is no elder sibling of anything at later positions. -/
theorem not_elder_of_mem_below {node : Node} {rest : List Node} {other : Occurrence}
    (inside : other ∈ occurrencesFrom (address ++ [position]) (node :: ancestors) 0
      node.children)
    (later : occurrence ∈ occurrencesFrom address ancestors (position + 1) rest) :
    ¬ Elder other.address occurrence.address := by
  intro elder
  obtain ⟨step, way, further, isAddress⟩ := exists_way_of_mem later
  obtain ⟨stepInside, wayInside, _, isInside⟩ := exists_way_of_mem inside
  rw [isAddress, isInside, List.append_assoc, elder_append, List.singleton_append,
    elder_cons_cons] at elder
  rcases elder with ⟨isNil, _⟩ | ⟨same, _⟩
  · cases isNil
  · omega

theorem sighted_of_mem_sightedFrom (around : ∀ node ∈ ancestors, node.covers offset = true)
    (member : occurrence ∈ sightedFrom offset address ancestors position nodes) :
    Sighted (occurrencesFrom address ancestors position nodes) offset occurrence := by
  induction address, ancestors, position, nodes using sightedFrom.induct offset with
  | case1 => simp [sightedFrom] at member
  | case2 address ancestors position node rest covers ih =>
      have aroundBelow : ∀ outer ∈ node :: ancestors, outer.covers offset = true :=
        List.forall_mem_cons.mpr ⟨covers, around⟩
      rw [sightedFrom, if_pos covers, List.mem_cons] at member
      rcases member with rfl | member
      · refine ⟨covers, around, ?_⟩
        intro other listed elder
        -- It would stand below the node, at a longer address than an elder sibling has.
        obtain ⟨step, way, _, isAddress⟩ := exists_way_of_mem (mem_below_of_elder listed elder)
        rw [isAddress, List.append_assoc, elder_append, List.singleton_append,
          elder_cons_cons] at elder
        rcases elder with ⟨isNil, _⟩ | ⟨_, elder⟩
        · cases isNil
        · exact absurd elder not_elder_nil
      · have sighted := ih aroundBelow member
        refine ⟨sighted.covers, sighted.around, ?_⟩
        intro other listed elder
        obtain ⟨step, way, _, isAddress⟩ :=
          exists_way_of_mem ((sightedFrom_sublist _ _ _ _ _).subset member)
        have elderHere := elder
        rw [isAddress, List.append_assoc] at elderHere
        exact sighted.first other (mem_below_of_elder listed elderHere) elder
  | case3 address ancestors position node rest passed ih =>
      rw [sightedFrom, if_neg passed] at member
      have later := (sightedFrom_sublist _ _ _ _ _).subset member
      have sighted := ih around member
      refine ⟨sighted.covers, sighted.around, ?_⟩
      intro other listed elder
      rw [occurrencesFrom, List.mem_cons, List.mem_append] at listed
      rcases listed with rfl | inside | listed
      · simpa using passed
      · exact absurd elder (not_elder_of_mem_below inside later)
      · exact sighted.first other listed elder

theorem mem_sightedFrom_of_sighted
    (member : occurrence ∈ occurrencesFrom address ancestors position nodes)
    (sighted : Sighted (occurrencesFrom address ancestors position nodes) offset occurrence) :
    occurrence ∈ sightedFrom offset address ancestors position nodes := by
  induction address, ancestors, position, nodes using sightedFrom.induct offset with
  | case1 => simp [occurrencesFrom] at member
  | case2 address ancestors position node rest covers ih =>
      rw [occurrencesFrom] at member sighted
      rw [sightedFrom, if_pos covers, List.mem_cons]
      rcases List.mem_cons.mp member with isFirst | member
      · exact .inl isFirst
      · rcases List.mem_append.mp member with inside | later
        · refine .inr (ih inside (sighted.mono ?_))
          intro other listed
          exact List.mem_cons_of_mem _ (List.mem_append_left _ listed)
        · -- The node covers the offset, so what stands at later positions is behind it.
          have hidden := sighted.first _ List.mem_cons_self (elder_of_mem_later later)
          cases covers.symm.trans hidden
  | case3 address ancestors position node rest passed ih =>
      rw [occurrencesFrom] at member sighted
      rw [sightedFrom, if_neg passed]
      rcases List.mem_cons.mp member with rfl | member
      · exact absurd sighted.covers passed
      · rcases List.mem_append.mp member with inside | later
        · have isAround := (suffix_of_mem_occurrencesFrom inside).subset List.mem_cons_self
          exact absurd (sighted.around node isAround) passed
        · refine ih later (sighted.mono ?_)
          intro other listed
          exact List.mem_cons_of_mem _ (List.mem_append_right _ listed)

/-! ## Wholes and parts on a path -/

/-- An occurrence directly below another one. -/
structure Occurrence.IsPartOf (part whole : Occurrence) : Prop where
  ancestors : part.ancestors = whole.node :: whole.ancestors
  position : ∃ position, part.address = whole.address ++ [position] ∧
    whole.node.children[position]? = some part.node

/-- A path starts at one of the nodes it is taken from. -/
theorem head_sightedFrom {first : Occurrence}
    (isFirst : (sightedFrom offset address ancestors position nodes).head? = some first) :
    first.ancestors = ancestors ∧ ∃ step, first.address = address ++ [position + step] ∧
      nodes[step]? = some first.node := by
  induction address, ancestors, position, nodes using sightedFrom.induct offset with
  | case1 => simp [sightedFrom] at isFirst
  | case2 address ancestors position node rest covers =>
      rw [sightedFrom, if_pos covers] at isFirst
      cases isFirst
      exact ⟨rfl, 0, rfl, rfl⟩
  | case3 address ancestors position node rest passed ih =>
      rw [sightedFrom, if_neg passed] at isFirst
      obtain ⟨isAncestors, step, isAddress, isNode⟩ := ih isFirst
      refine ⟨isAncestors, step + 1, ?_, isNode⟩
      rw [isAddress, Nat.add_assoc, Nat.add_comm 1]

/-- Each node on a path is a part of the one before it. -/
theorem sightedFrom_isChain (offset : Nat) (address : List Nat) (ancestors : List Node)
    (position : Nat) (nodes : List Node) :
    (sightedFrom offset address ancestors position nodes).IsChain
      fun whole part => part.IsPartOf whole := by
  induction address, ancestors, position, nodes using sightedFrom.induct offset with
  | case1 => simp [sightedFrom]
  | case2 address ancestors position node rest covers ih =>
      rw [sightedFrom, if_pos covers, List.isChain_cons]
      refine ⟨?_, ih⟩
      intro first isFirst
      obtain ⟨isAncestors, step, isAddress, isNode⟩ := head_sightedFrom isFirst
      rw [Nat.zero_add] at isAddress
      exact ⟨isAncestors, step, isAddress, isNode⟩
  | case3 address ancestors position node rest passed ih =>
      rw [sightedFrom, if_neg passed]
      exact ih

/-! ## The path to an offset -/

/-- An occurrence in a suite that the descent to an offset comes by. -/
structure InSight (suite : Suite) (offset : Nat) (occurrence : Occurrence) : Prop
    extends Sighted (occurrences suite) offset occurrence where
  representable : offset ≤ maxOffset

/-- The path to an offset, each node where it stands. -/
def sightedPath (suite : Suite) (offset : Nat) : List Occurrence :=
  if offset ≤ maxOffset then sightedFrom offset [] [] 0 (Node.ofSuite suite) else []

theorem map_node_sightedPath (suite : Suite) (offset : Nat) :
    (sightedPath suite offset).map (·.node) = locate suite offset := by
  by_cases representable : offset ≤ maxOffset
  · rw [sightedPath, if_pos representable, locate, if_pos representable, map_node_sightedFrom]
  · rw [sightedPath, if_neg representable, locate, if_neg representable, List.map_nil]

theorem sightedPath_sublist (suite : Suite) (offset : Nat) :
    (sightedPath suite offset).Sublist (occurrences suite) := by
  by_cases representable : offset ≤ maxOffset
  · rw [sightedPath, if_pos representable]
    exact sightedFrom_sublist offset [] [] 0 (Node.ofSuite suite)
  · rw [sightedPath, if_neg representable]
    exact List.nil_sublist _

theorem mem_sightedPath {suite : Suite} (member : occurrence ∈ occurrences suite) :
    occurrence ∈ sightedPath suite offset ↔ InSight suite offset occurrence := by
  by_cases representable : offset ≤ maxOffset
  · rw [sightedPath, if_pos representable]
    constructor
    · intro onPath
      exact ⟨sighted_of_mem_sightedFrom (by simp) onPath, representable⟩
    · intro inSight
      exact mem_sightedFrom_of_sighted member inSight.toSighted
  · rw [sightedPath, if_neg representable]
    constructor
    · intro onPath
      cases onPath
    · intro inSight
      exact absurd inSight.representable representable

theorem sightedPath_isChain (suite : Suite) (offset : Nat) :
    (sightedPath suite offset).IsChain fun whole part => part.IsPartOf whole := by
  by_cases representable : offset ≤ maxOffset
  · rw [sightedPath, if_pos representable]
    exact sightedFrom_isChain offset [] [] 0 (Node.ofSuite suite)
  · rw [sightedPath, if_neg representable]
    exact .nil

theorem locate_eq_nil_iff (suite : Suite) (offset : Nat) :
    locate suite offset = [] ↔
      ∀ statement ∈ suite, offset ≤ maxOffset →
        (Node.stmt statement).covers offset = false := by
  by_cases representable : offset ≤ maxOffset
  · rw [locate, if_pos representable]
    cases found : (Node.ofSuite suite).find? (·.covers offset) with
    | none =>
        rw [descend_of_find?_none found]
        simpa [Node.ofSuite, representable] using found
    | some node =>
        rw [descend_of_find?_some found]
        have isStatement := List.mem_of_find?_eq_some found
        have covers := List.find?_some found
        obtain ⟨statement, member, rfl⟩ := List.mem_map.mp isStatement
        constructor
        · intro isNil
          cases isNil
        · intro missed
          cases (missed statement member representable).symm.trans covers
  · simp [locate, representable]

/-! ## Innermost nodes -/

/-- A range that lies in another and is not the same. -/
def Span.StrictlyInside (inner outer : Span) : Prop :=
  outer.start ≤ inner.start ∧ inner.stop ≤ outer.stop ∧ inner ≠ outer

instance (inner outer : Span) : Decidable (inner.StrictlyInside outer) :=
  inferInstanceAs (Decidable (_ ∧ _ ∧ _))

/-- A path that leads as deep as a range: it has an end that the range is not strictly
inside. -/
def AsDeepAs (span : Span) (path : List Node) : Prop :=
  ∃ last, path.getLast? = some last ∧ ¬ span.StrictlyInside last.span

/-- The path to an offset ends in an innermost node: it leads as deep as every node of the
suite that covers the offset. -/
def EndsInnermost (suite : Suite) (offset : Nat) : Prop :=
  ∀ visit ∈ moduleVisits suite, visit.node.covers offset = true →
    AsDeepAs visit.node.span (locate suite offset)

theorem endsInnermost_iff_occurrences {suite : Suite} :
    EndsInnermost suite offset ↔
      ∀ occurrence ∈ occurrences suite, occurrence.node.covers offset = true →
        AsDeepAs occurrence.node.span (locate suite offset) := by
  simp only [EndsInnermost, moduleVisits_eq, List.forall_mem_map, Occurrence.visit]

/-- The second range starts and ends in the first. -/
structure Span.Bounds (outer inner : Span) : Prop where
  start : outer.start ≤ inner.start
  stop : inner.stop ≤ outer.stop

theorem Span.Bounds.not_strictlyInside {outer inner : Span} (bounds : outer.Bounds inner) :
    ¬ outer.StrictlyInside inner := by
  intro ⟨startsLater, endsEarlier, different⟩
  have sameStart := Nat.le_antisymm bounds.start startsLater
  have sameStop := Nat.le_antisymm endsEarlier bounds.stop
  exact different (congrArg₂ Span.mk sameStart sameStop)

instance : Trans Span.Bounds Span.Bounds Span.Bounds where
  trans first second := ⟨first.start.trans second.start, second.stop.trans first.stop⟩

/-- A path on which every range lies in the one before it. -/
def Narrowing (path : List Node) : Prop :=
  (path.map (·.span)).IsChain Span.Bounds

/-- Where ranges narrow, no node on the path is strictly inside its end. -/
theorem asDeepAs_of_narrowing {path : List Node} (narrowing : Narrowing path) :
    ∀ node ∈ path, AsDeepAs node.span path := by
  intro node onPath
  rcases List.eq_nil_or_concat' path with rfl | ⟨front, last, rfl⟩
  · cases onPath
  · refine ⟨last, List.getLast?_concat, ?_⟩
    have ordered := List.isChain_iff_pairwise.mp narrowing
    rw [List.pairwise_map, List.pairwise_append] at ordered
    rcases List.mem_append.mp onPath with inFront | isLast
    · exact (ordered.2.2 node inFront last List.mem_cons_self).not_strictlyInside
    · rw [List.mem_singleton.mp isLast]
      exact fun strictly => strictly.2.2 rfl

/-- For every suite and offset, the path holds what is in sight and nothing else, in the order
of a walk.  It is empty exactly if no statement of the suite itself covers the offset.  Its end
is innermost exactly if it leads as deep as all that covers the offset and is out of sight, and
as deep as the nodes on the path, which it does wherever ranges narrow on the way down. -/
theorem locate_in_sight (suite : Suite) (offset : Nat) :
    (∃ path : List Occurrence, path.Sublist (occurrences suite) ∧
      path.map (·.node) = locate suite offset ∧
      ∀ occurrence ∈ occurrences suite,
        occurrence ∈ path ↔ InSight suite offset occurrence) ∧
    (locate suite offset = [] ↔
      ∀ statement ∈ suite, offset ≤ maxOffset →
        (Node.stmt statement).covers offset = false) ∧
    (EndsInnermost suite offset ↔
      (∀ occurrence ∈ occurrences suite, occurrence.node.covers offset = true →
        ¬ InSight suite offset occurrence →
        AsDeepAs occurrence.node.span (locate suite offset)) ∧
      ∀ node ∈ locate suite offset, AsDeepAs node.span (locate suite offset)) ∧
    (Narrowing (locate suite offset) →
      ∀ node ∈ locate suite offset, AsDeepAs node.span (locate suite offset)) := by
  refine ⟨⟨sightedPath suite offset, sightedPath_sublist suite offset,
    map_node_sightedPath suite offset, ?_⟩, locate_eq_nil_iff suite offset, ?_,
    asDeepAs_of_narrowing⟩
  · intro occurrence member
    exact mem_sightedPath member
  rw [endsInnermost_iff_occurrences]
  constructor
  · intro innermost
    refine ⟨?_, ?_⟩
    · intro occurrence member covers _
      exact innermost occurrence member covers
    · intro node onPath
      rw [← map_node_sightedPath] at onPath
      obtain ⟨occurrence, sighted, rfl⟩ := List.mem_map.mp onPath
      have member := (sightedPath_sublist suite offset).subset sighted
      exact innermost occurrence member ((mem_sightedPath member).mp sighted).covers
  · intro ⟨outOfSight, onPath⟩ occurrence member covers
    by_cases inSight : InSight suite offset occurrence
    · apply onPath
      rw [← map_node_sightedPath]
      exact List.mem_map.mpr ⟨occurrence, (mem_sightedPath member).mpr inSight, rfl⟩
    · exact outOfSight occurrence member covers inSight

/-! ## Names out of sight -/

/-- Two fields of a formatted string, which both cover all of it: `f'{x}{y}'`. -/
def twoFields : Suite := [
  .expr ⟨0, 9⟩ (.joinedStr ⟨0, 9⟩ [
    .formattedValue ⟨0, 9⟩ (.name ⟨3, 4⟩ "x" .load) none,
    .formattedValue ⟨0, 9⟩ (.name ⟨6, 7⟩ "y" .load) none])]

/-- A method with a decorator, which stands in front of the range of the method:
```
class A:
    @d
    def m(self):
        pass
``` -/
def decoratedMethod : Suite := [
  .classDef ⟨0, 45⟩ "A" [] [] [] [
    .functionDef ⟨20, 45⟩ false "m" [⟨⟨⟨26, 30⟩, .positional, "self", none⟩, none⟩] none
      [.name ⟨14, 15⟩ "d" .load] [.simple ⟨41, 45⟩ .pass]]]

/-- A function with a decorator, outside of every statement:
```
@d
def f():
    pass
``` -/
def decoratedFunction : Suite := [
  .functionDef ⟨3, 20⟩ false "f" [] none [.name ⟨1, 2⟩ "d" .load] [.simple ⟨16, 20⟩ .pass]]

theorem not_endsInnermost {suite : Suite} {place : Nat} {visit : Visit} {path : List Node}
    (visited : (moduleVisits suite)[place]? = some visit)
    (covers : visit.node.covers offset = true) (isPath : locate suite offset = path)
    (shallow : ∀ last, path.getLast? = some last → visit.node.span.StrictlyInside last.span) :
    ¬ EndsInnermost suite offset := by
  intro innermost
  obtain ⟨last, isLast, notInside⟩ := innermost visit (List.mem_of_getElem? visited) covers
  rw [isPath] at isLast
  exact notInside (shallow last isLast)

/-- The name in the second field of a formatted string is covered by the first field too, and
a decorator by no function: neither is found. -/
theorem names_out_of_sight :
    ¬ EndsInnermost twoFields 6 ∧ ¬ EndsInnermost decoratedMethod 14 ∧
      ¬ EndsInnermost decoratedFunction 1 := by
  refine ⟨?_, ?_, ?_⟩
  · have visited : (moduleVisits twoFields)[5]? =
        some ⟨.expr (.name ⟨6, 7⟩ "y" .load), false⟩ := by cbv
    refine not_endsInnermost visited (by decide) rfl ?_
    have isLast : (locate twoFields 6).getLast? =
        some (.expr (.formattedValue ⟨0, 9⟩ (.name ⟨3, 4⟩ "x" .load) none)) := by cbv
    intro last isOther
    cases isLast.symm.trans isOther
    decide
  · have visited : (moduleVisits decoratedMethod)[2]? =
        some ⟨.expr (.name ⟨14, 15⟩ "d" .load), false⟩ := by cbv
    have isPath : locate decoratedMethod 14 = Node.ofSuite decoratedMethod := by cbv
    refine not_endsInnermost visited (by decide) isPath ?_
    intro last isLast
    cases isLast
    decide
  · have visited : (moduleVisits decoratedFunction)[1]? =
        some ⟨.expr (.name ⟨1, 2⟩ "d" .load), false⟩ := by cbv
    have isPath : locate decoratedFunction 1 = [] := by cbv
    refine not_endsInnermost visited (by decide) isPath ?_
    intro last isLast
    cases isLast

end TypeTrace.Syntax
