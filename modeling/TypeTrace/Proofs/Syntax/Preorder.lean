import Mathlib.Data.List.Lex
import TypeTrace.Syntax.Walk

/-!
# Walks go through a tree in pre-order

An occurrence is a node where it stands in a tree: with its address, the positions to take
from the top, and with the nodes around it.  `occurrences` lists a node and then, part by
part, what stands below it.  A walk comes by the same nodes in the same order, although it
knows nothing of addresses and ancestors and only keeps a stack (`walk_everywhere_eq`,
`walk_outsideFunctions_eq`).

The order is that of the addresses as words, and what is listed is what the addresses lead
to, so nothing below the top is left out and nothing is listed twice.
-/

namespace TypeTrace.Syntax

/-! ## Occurrences -/

/-- A node where it stands. -/
structure Occurrence where
  /-- The positions to take from the top, one for each level. -/
  address : List Nat
  /-- The nodes around it, innermost first. -/
  ancestors : List Node
  node : Node

/-- The nodes of a list, counted from a position, each followed by what stands below it.
The address and the ancestors are those of the list. -/
def occurrencesFrom (address : List Nat) (ancestors : List Node) (position : Nat) :
    List Node → List Occurrence
  | [] => []
  | node :: rest =>
      ⟨address ++ [position], ancestors, node⟩ ::
        (occurrencesFrom (address ++ [position]) (node :: ancestors) 0 node.children ++
          occurrencesFrom address ancestors (position + 1) rest)
termination_by nodes => Node.sizes nodes
decreasing_by
  all_goals
    have smaller := Node.sizes_children_lt node
    simp only [Node.sizes_cons]
    omega

/-- Everything in a suite in pre-order. -/
def occurrences (suite : Suite) : List Occurrence :=
  occurrencesFrom [] [] 0 (Node.ofSuite suite)

namespace Occurrence

/-- Whether a statement around the occurrence may skip it. -/
def isConditional (occurrence : Occurrence) : Bool :=
  occurrence.ancestors.any Node.isBranching

/-- Whether the occurrence stands in a function. -/
def inFunction (occurrence : Occurrence) : Bool :=
  occurrence.ancestors.any Node.isFunction

/-- The visit that a walk pays to an occurrence. -/
def visit (occurrence : Occurrence) : Visit :=
  ⟨occurrence.node, occurrence.isConditional⟩

end Occurrence

variable {address : List Nat} {ancestors nodes : List Node} {position : Nat}
variable {occurrence : Occurrence}

/-- What stands around a list of nodes stands around everything in it. -/
theorem suffix_of_mem_occurrencesFrom
    (member : occurrence ∈ occurrencesFrom address ancestors position nodes) :
    ancestors <:+ occurrence.ancestors := by
  induction address, ancestors, position, nodes using occurrencesFrom.induct with
  | case1 => simp [occurrencesFrom] at member
  | case2 address ancestors position node rest below after =>
      rw [occurrencesFrom, List.mem_cons, List.mem_append] at member
      rcases member with rfl | inside | later
      · exact List.suffix_refl _
      · exact (List.suffix_cons node ancestors).trans (below inside)
      · exact after later

/-! ## Walks -/

variable {reach : Reach}

theorem walk_append (first second : List Visit) :
    walk reach (first ++ second) = walk reach first ++ walk reach second := by
  induction first using walk.induct reach with
  | case1 => simp [walk]
  | case2 visit pending ih =>
      rw [List.cons_append, walk, walk, ← List.append_assoc, ih, List.cons_append]

/-- A walk comes by a node, then by its parts, then by the others. -/
theorem walk_cons (visit : Visit) (pending : List Visit) :
    walk reach (visit :: pending) =
      visit :: (walk reach (visit.parts reach) ++ walk reach pending) := by
  rw [walk, walk_append]

/-- The parts of a visit are flagged by what is around them, the node itself included. -/
theorem parts_of_opens {node : Node} (opened : reach.opens node = true)
    (ancestors : List Node) :
    Visit.parts reach ⟨node, ancestors.any Node.isBranching⟩ =
      node.children.map (⟨·, (node :: ancestors).any Node.isBranching⟩) := by
  simp only [Visit.parts, opened, if_true, List.any_cons, Bool.or_comm]

theorem walk_everywhere_eq (address : List Nat) (ancestors : List Node) (position : Nat)
    (nodes : List Node) :
    walk .everywhere (nodes.map (⟨·, ancestors.any Node.isBranching⟩)) =
      (occurrencesFrom address ancestors position nodes).map Occurrence.visit := by
  induction address, ancestors, position, nodes using occurrencesFrom.induct with
  | case1 => simp [walk, occurrencesFrom]
  | case2 address ancestors position node rest below after =>
      rw [List.map_cons, walk_cons, parts_of_opens rfl, below, after, occurrencesFrom,
        List.map_cons, List.map_append]
      rfl

/-- What stands below a function stands in a function. -/
theorem filter_occurrencesFrom_of_isFunction {node : Node} (isFunction : node.isFunction = true) :
    (occurrencesFrom address (node :: ancestors) position nodes).filter (! ·.inFunction) =
      [] := by
  rw [List.filter_eq_nil_iff]
  intro found member
  have isAround := (suffix_of_mem_occurrencesFrom member).subset List.mem_cons_self
  have isInside : found.inFunction = true :=
    List.any_eq_true.mpr ⟨node, isAround, isFunction⟩
  simp [isInside]

theorem walk_outsideFunctions_eq (address : List Nat) (ancestors : List Node)
    (position : Nat) (nodes : List Node)
    (outside : ancestors.any Node.isFunction = false) :
    walk .outsideFunctions (nodes.map (⟨·, ancestors.any Node.isBranching⟩)) =
      ((occurrencesFrom address ancestors position nodes).filter (! ·.inFunction)).map
        Occurrence.visit := by
  induction address, ancestors, position, nodes using occurrencesFrom.induct with
  | case1 => simp [walk, occurrencesFrom]
  | case2 address ancestors position node rest below after =>
      have inside : walk .outsideFunctions
            (Visit.parts .outsideFunctions ⟨node, ancestors.any Node.isBranching⟩) =
          ((occurrencesFrom (address ++ [position]) (node :: ancestors) 0
            node.children).filter (! ·.inFunction)).map Occurrence.visit := by
        cases isFunction : node.isFunction with
        | true =>
            rw [filter_occurrencesFrom_of_isFunction isFunction]
            simp [Visit.parts, Reach.opens, isFunction, walk]
        | false =>
            have opened : Reach.opens .outsideFunctions node = true := by
              simp [Reach.opens, isFunction]
            have stillOutside : (node :: ancestors).any Node.isFunction = false := by
              rw [List.any_cons, isFunction, outside, Bool.or_false]
            rw [parts_of_opens opened, below stillOutside]
      have isOutside :
          (! Occurrence.inFunction ⟨address ++ [position], ancestors, node⟩) = true := by
        simp [Occurrence.inFunction, outside]
      rw [List.map_cons, walk_cons, inside, after outside, occurrencesFrom, List.filter_cons,
        if_pos isOutside, List.filter_append, List.map_cons, List.map_append]
      rfl

theorem moduleVisits_eq (suite : Suite) :
    moduleVisits suite = (occurrences suite).map Occurrence.visit :=
  walk_everywhere_eq [] [] 0 (Node.ofSuite suite)

theorem bodyVisits_eq (body : Suite) :
    bodyVisits body =
      ((occurrences body).filter (! ·.inFunction)).map Occurrence.visit :=
  walk_outsideFunctions_eq [] [] 0 (Node.ofSuite body) rfl

/-! ## Addresses -/

/-- The nodes on the way along an address, outermost first. -/
def trail? (nodes : List Node) : (address : List Nat) → Option (List Node)
  | [] => some []
  | step :: way =>
      nodes[step]?.bind fun node => (trail? node.children way).map (node :: ·)

theorem trail?_zero (node : Node) (rest : List Node) (way : List Nat) :
    trail? (node :: rest) (0 :: way) = (trail? node.children way).map (node :: ·) := by
  simp [trail?]

theorem trail?_succ (node : Node) (rest : List Node) (step : Nat) (way : List Nat) :
    trail? (node :: rest) ((step + 1) :: way) = trail? rest (step :: way) := by
  simp [trail?]

theorem trail?_cons_ne_nil (nodes : List Node) (step : Nat) (way : List Nat) :
    trail? nodes (step :: way) ≠ some [] := by
  intro found
  obtain ⟨node, _, isTrail⟩ := Option.bind_eq_some_iff.mp found
  obtain ⟨inner, _, isNil⟩ := Option.map_eq_some_iff.mp isTrail
  cases isNil

/-- What is listed is what addresses lead to. -/
theorem mem_occurrencesFrom :
    occurrence ∈ occurrencesFrom address ancestors position nodes ↔
      ∃ step way around, trail? nodes (step :: way) = some (around ++ [occurrence.node]) ∧
        occurrence.address = address ++ (position + step) :: way ∧
        occurrence.ancestors = around.reverse ++ ancestors := by
  induction address, ancestors, position, nodes using occurrencesFrom.induct with
  | case1 => simp [occurrencesFrom, trail?]
  | case2 address ancestors position node rest below after =>
      rw [occurrencesFrom, List.mem_cons, List.mem_append, below, after]
      constructor
      · rintro (rfl | ⟨step, way, around, found, isAddress, isAround⟩ |
          ⟨step, way, around, found, isAddress, isAround⟩)
        · exact ⟨0, [], [], by simp [trail?], rfl, rfl⟩
        · refine ⟨0, step :: way, node :: around, ?_, ?_, ?_⟩
          · rw [trail?_zero, found]
            rfl
          · simp [isAddress]
          · simp [isAround]
        · refine ⟨step + 1, way, around, ?_, ?_, isAround⟩
          · rw [trail?_succ, found]
          · rw [isAddress, Nat.add_assoc, Nat.add_comm 1]
      · rintro ⟨step, way, around, found, isAddress, isAround⟩
        cases step with
        | succ step =>
            refine .inr (.inr ⟨step, way, around, ?_, ?_, isAround⟩)
            · rw [← found, trail?_succ]
            · rw [isAddress, Nat.add_assoc, Nat.add_comm 1]
        | zero =>
            rw [trail?_zero] at found
            obtain ⟨inner, foundInner, isTrail⟩ := Option.map_eq_some_iff.mp found
            obtain ⟨foundAddress, foundAncestors, foundNode⟩ := occurrence
            simp only at isAddress isAround isTrail ⊢
            subst isAddress isAround
            -- Either the address ends here, or it goes on below the node.
            cases around with
            | nil =>
                cases isTrail
                cases way with
                | nil => exact .inl rfl
                | cons next way => exact absurd foundInner (trail?_cons_ne_nil _ _ _)
            | cons first around =>
                cases isTrail
                cases way with
                | nil => simp [trail?] at foundInner
                | cons next way =>
                    exact .inr (.inl ⟨next, way, around, foundInner, by simp, by simp⟩)

theorem exists_way_of_mem
    (member : occurrence ∈ occurrencesFrom address ancestors position nodes) :
    ∃ step way, position ≤ step ∧ occurrence.address = address ++ step :: way := by
  obtain ⟨step, way, _, _, isAddress, _⟩ := mem_occurrencesFrom.mp member
  exact ⟨position + step, way, Nat.le_add_right _ _, isAddress⟩

/-- What stands at a position, or below it, comes before what stands at later ones. -/
theorem lex_of_mem_later
    (member : occurrence ∈ occurrencesFrom address ancestors (position + 1) nodes)
    (way : List Nat) :
    List.Lex (· < ·) (address ++ position :: way) occurrence.address := by
  obtain ⟨step, wayLater, further, isAddress⟩ := exists_way_of_mem member
  rw [isAddress]
  exact .append_left (· < ·) (.rel further) address

/-- Occurrences are listed in the order of their addresses as words. -/
theorem occurrencesFrom_ascending (address : List Nat) (ancestors : List Node)
    (position : Nat) (nodes : List Node) :
    (occurrencesFrom address ancestors position nodes).Pairwise
      fun first second => List.Lex (· < ·) first.address second.address := by
  induction address, ancestors, position, nodes using occurrencesFrom.induct with
  | case1 => simp [occurrencesFrom]
  | case2 address ancestors position node rest below after =>
      rw [occurrencesFrom, List.pairwise_cons, List.pairwise_append]
      refine ⟨?_, below, after, ?_⟩
      · intro found member
        rcases List.mem_append.mp member with inside | later
        · obtain ⟨step, way, _, isAddress⟩ := exists_way_of_mem inside
          rw [isAddress, List.append_assoc]
          exact .append_left (· < ·) (.cons .nil) address
        · exact lex_of_mem_later later []
      · intro found inside other later
        obtain ⟨step, way, _, isAddress⟩ := exists_way_of_mem inside
        rw [isAddress, List.append_assoc]
        exact lex_of_mem_later later (step :: way)

/-! ## Walks with a stack -/

/-- A walk under way: what it still has to visit, the next visit last. -/
structure Walker where
  reach : Reach
  stack : List Visit

/-- The next visit, taken from the top of the stack.  Its parts are put there in reverse, so
that the first one comes out first. -/
def Walker.next? (walker : Walker) : Option (Visit × Walker) :=
  walker.stack.getLast?.map fun visit =>
    (visit, ⟨walker.reach, walker.stack.dropLast ++ (visit.parts walker.reach).reverse⟩)

/-- The visits of a walk, to its end. -/
inductive Yields : Walker → List Visit → Prop where
  | done {walker : Walker} (isEmpty : walker.next? = none) : Yields walker []
  | visit {walker later : Walker} {visit : Visit} {visits : List Visit}
      (isNext : walker.next? = some (visit, later)) (after : Yields later visits) :
      Yields walker (visit :: visits)

theorem Yields.unique {walker : Walker} {visits others : List Visit}
    (yields : Yields walker visits) (other : Yields walker others) : visits = others := by
  induction yields generalizing others with
  | done isEmpty =>
      cases other with
      | done => rfl
      | visit isNext => cases isEmpty.symm.trans isNext
  | visit isNext _ ih =>
      cases other with
      | done isEmpty => cases isEmpty.symm.trans isNext
      | visit isNextOther after =>
          cases isNext.symm.trans isNextOther
          rw [ih after]

/-- A stack from its top to its bottom is a list of pending visits. -/
theorem yields_walk (reach : Reach) (pending : List Visit) :
    Yields ⟨reach, pending.reverse⟩ (walk reach pending) := by
  induction pending using walk.induct reach with
  | case1 =>
      rw [walk]
      exact .done rfl
  | case2 visit pending ih =>
      rw [walk]
      refine .visit ?_ ih
      simp [Walker.next?]

theorem yields_iff {pending visits : List Visit} :
    Yields ⟨reach, pending.reverse⟩ visits ↔ visits = walk reach pending := by
  constructor
  · intro yields
    exact yields.unique (yields_walk reach pending)
  · rintro rfl
    exact yields_walk reach pending

/-! ## What walks come by -/

/-- Every occurrence below the statements of a suite, once and in pre-order. -/
structure InPreorder (suite : Suite) (listed : List Occurrence) : Prop where
  /-- An occurrence is listed if its address leads to it, past the nodes around it. -/
  complete : ∀ occurrence, occurrence ∈ listed ↔
    trail? (Node.ofSuite suite) occurrence.address =
      some (occurrence.ancestors.reverse ++ [occurrence.node])
  /-- Addresses ascend as words: a node comes before what stands below it, and that before
  what stands at later positions. -/
  ascending : listed.Pairwise fun first second =>
    List.Lex (· < ·) first.address second.address

theorem occurrences_inPreorder (suite : Suite) : InPreorder suite (occurrences suite) where
  complete := by
    intro occurrence
    rw [occurrences, mem_occurrencesFrom]
    constructor
    · rintro ⟨step, way, around, found, isAddress, isAround⟩
      simpa [isAddress, isAround] using found
    · intro found
      cases isAddress : occurrence.address with
      | nil => simp [isAddress, trail?] at found
      | cons step way =>
          rw [isAddress] at found
          exact ⟨step, way, occurrence.ancestors.reverse, found, by simp, by simp⟩
  ascending := occurrencesFrom_ascending [] [] 0 (Node.ofSuite suite)

/-! ## What stands around a node -/

/-- Statements that may not come to what is in them: loops, conditions, choices between cases
and attempts. -/
inductive MaySkip : Node → Prop where
  | forLoop {span : Span} {isAsync : Bool} {target source : Expr} {body orelse : List Stmt} :
      MaySkip (.stmt (.forLoop span isAsync target source body orelse))
  | branch {span : Span} {kind : BranchKind} {test : Expr} {body orelse : List Stmt} :
      MaySkip (.stmt (.branch span kind test body orelse))
  | matchBlock {span : Span} {subject : Expr} {cases : List (Clause Stmt)} :
      MaySkip (.stmt (.matchBlock span subject cases))
  | tryBlock {span : Span} {isStar : Bool} {body orelse finalbody : List Stmt}
      {handlers : List (Clause Stmt)} :
      MaySkip (.stmt (.tryBlock span isStar body handlers orelse finalbody))

theorem Node.isBranching_iff {node : Node} : node.isBranching = true ↔ MaySkip node := by
  constructor
  · intro isBranching
    unfold Node.isBranching at isBranching
    split at isBranching
    next => exact .forLoop
    next => exact .branch
    next => exact .matchBlock
    next => exact .tryBlock
    next => cases isBranching
  · intro maySkip
    cases maySkip with
    | _ => rfl

theorem Node.isFunction_iff {node : Node} :
    node.isFunction = true ↔ ∃ span isAsync name signature returns decorators body,
      node = .stmt (.functionDef span isAsync name signature returns decorators body) := by
  constructor
  · intro isFunction
    unfold Node.isFunction at isFunction
    split at isFunction
    next => exact ⟨_, _, _, _, _, _, _, rfl⟩
    next => cases isFunction
  · rintro ⟨_, _, _, _, _, _, _, rfl⟩
    rfl

theorem Occurrence.isConditional_iff (occurrence : Occurrence) :
    occurrence.isConditional = true ↔ ∃ node ∈ occurrence.ancestors, MaySkip node := by
  simp only [Occurrence.isConditional, List.any_eq_true, Node.isBranching_iff]

theorem Occurrence.inFunction_iff (occurrence : Occurrence) :
    occurrence.inFunction = true ↔ ∃ node ∈ occurrence.ancestors,
      ∃ span isAsync name signature returns decorators body,
        node = .stmt (.functionDef span isAsync name signature returns decorators body) := by
  simp only [Occurrence.inFunction, List.any_eq_true, Node.isFunction_iff]

/-- For every suite, a walk with a stack comes to an end.  If it goes everywhere it has then
come by everything in the suite once, in pre-order, and if it stays out of functions by what
stands in no function, in the same order.  A visit is conditional if a loop, a condition, a
choice between cases or an attempt stands around the node. -/
theorem walks_in_preorder (suite : Suite) :
    InPreorder suite (occurrences suite) ∧
    (∀ visits, Yields ⟨.everywhere, (roots suite).reverse⟩ visits ↔
      visits = moduleVisits suite) ∧
    moduleVisits suite = (occurrences suite).map Occurrence.visit ∧
    (∀ visits, Yields ⟨.outsideFunctions, (roots suite).reverse⟩ visits ↔
      visits = bodyVisits suite) ∧
    bodyVisits suite =
      ((occurrences suite).filter (! ·.inFunction)).map Occurrence.visit ∧
    ∀ occurrence : Occurrence,
      (occurrence.visit.conditional = true ↔ ∃ node ∈ occurrence.ancestors, MaySkip node) ∧
      (occurrence.inFunction = true ↔ ∃ node ∈ occurrence.ancestors,
        ∃ span isAsync name signature returns decorators body,
          node = .stmt (.functionDef span isAsync name signature returns decorators body)) := by
  refine ⟨occurrences_inPreorder suite, ?_, moduleVisits_eq suite, ?_, bodyVisits_eq suite,
    fun occurrence => ⟨occurrence.isConditional_iff, occurrence.inFunction_iff⟩⟩
  · intro visits
    exact yields_iff
  · intro visits
    exact yields_iff

end TypeTrace.Syntax
