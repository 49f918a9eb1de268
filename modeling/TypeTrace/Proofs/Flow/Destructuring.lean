import Mathlib.Data.List.Lex
import TypeTrace.Flow.Subject
import TypeTrace.Proofs.Flow.Pairing

/-!
# Destructuring by position

An assignment takes target and value apart side by side.  Here the two are kept apart: the
leaves of a target are listed with the way to each of them, and a way is then followed in the
value alone.  A step goes to one element of a display of so many; a star in front of a target is
no step, so a starred element has the one position that it stands at.  A value that is no display
is the result for the rest of the way, and a display of another width leads nowhere.  Both
readings pair the same leaves with the same values (`pairs_eq_leaves`).
-/

namespace TypeTrace.Flow

open Syntax

/-- A step into a display: which of how many elements. -/
structure Slot where
  index : Nat
  width : Nat

/-- A target that is no display, and the way to it from the outermost target. -/
structure Leaf where
  way : List Slot
  target : Expr

/-- A leaf of an element, seen from the display around it. -/
def Leaf.under (slot : Slot) (leaf : Leaf) : Leaf :=
  ⟨slot :: leaf.way, leaf.target⟩

/-- The element that a step goes to, if the display has the right width. -/
def Slot.of? (slot : Slot) (elements : List Expr) : Option Expr :=
  if elements.length = slot.width then elements[slot.index]? else none

mutual

/-- The leaves of a target from left to right. -/
def leaves : Expr → List Leaf
  | .sequence _ _ parts _ => leavesOf parts.length 0 parts
  | .starred _ (.sequence _ _ parts _) _ => leavesOf parts.length 0 parts
  | .starred _ target _ => [⟨[], target⟩]
  | target => [⟨[], target⟩]

/-- The leaves of the elements of a display, from an index on. -/
def leavesOf (width index : Nat) : List Expr → List Leaf
  | [] => []
  | part :: rest =>
      (leaves part).map (Leaf.under ⟨index, width⟩) ++ leavesOf width (index + 1) rest

end

/-- The target at the end of a way, without its star. -/
def targetAt? : Expr → List Slot → Option Expr
  | .starred _ target _, [] => some target
  | target, [] => some target
  | .sequence _ _ parts _, slot :: way => (slot.of? parts).bind (targetAt? · way)
  | .starred _ (.sequence _ _ parts _) _, slot :: way => (slot.of? parts).bind (targetAt? · way)
  | _, _ :: _ => none

/-- The value at the end of a way. -/
def valueAt? : Expr → List Slot → Option Expr
  | value, [] => some value
  | .sequence _ _ values _, slot :: way => (slot.of? values).bind (valueAt? · way)
  | value, _ :: _ => some value

variable {target value : Expr} {parts values : List Expr}

/-! ## Displays and stars -/

theorem elements?_eq_none_iff :
    elements? value = none ↔
      ∀ span kind parts context, value ≠ .sequence span kind parts context := by
  cases value with
  | sequence => simp [elements?]
  | _ => simp [elements?]

/-- A target with parts is a display, with a star in front of it or without. -/
theorem display_cases (shape : elements? (unstarred target) = some parts) :
    (∃ span kind context, target = .sequence span kind parts context) ∨
      ∃ outer span kind context star,
        target = .starred outer (.sequence span kind parts context) star := by
  cases target with
  | sequence span kind _ context =>
      cases shape
      exact .inl ⟨span, kind, context, rfl⟩
  | starred outer inner star =>
      cases inner with
      | sequence span kind _ context =>
          cases shape
          exact .inr ⟨outer, span, kind, context, star, rfl⟩
      | _ => cases shape
  | _ => cases shape

theorem leaves_leaf (leaf : elements? (unstarred target) = none) :
    leaves target = [⟨[], unstarred target⟩] := by
  cases target with
  | sequence => cases leaf
  | starred _ inner =>
      cases inner with
      | sequence => cases leaf
      | _ => rfl
  | _ => rfl

theorem leavesOf_eq (width index : Nat) (parts : List Expr) :
    leavesOf width index parts = (parts.zipIdx index).flatMap fun (part, index) =>
      (leaves part).map (Leaf.under ⟨index, width⟩) := by
  induction parts generalizing index with
  | nil => rfl
  | cons part rest ih => rw [leavesOf, ih, List.zipIdx_cons, List.flatMap_cons]

theorem leaves_display (shape : elements? (unstarred target) = some parts) :
    leaves target = parts.zipIdx.flatMap fun (part, index) =>
      (leaves part).map (Leaf.under ⟨index, parts.length⟩) := by
  rw [← leavesOf_eq]
  rcases display_cases shape with ⟨_, _, _, rfl⟩ | ⟨_, _, _, _, _, rfl⟩
  · rw [leaves]
  · rw [leaves]

theorem targetAt?_nil (target : Expr) : targetAt? target [] = some (unstarred target) := by
  cases target with
  | _ => rfl

theorem targetAt?_leaf (leaf : elements? (unstarred target) = none) (slot : Slot)
    (way : List Slot) : targetAt? target (slot :: way) = none := by
  cases target with
  | sequence => cases leaf
  | starred _ inner =>
      cases inner with
      | sequence => cases leaf
      | _ => rfl
  | _ => rfl

theorem targetAt?_display (shape : elements? (unstarred target) = some parts) (slot : Slot)
    (way : List Slot) :
    targetAt? target (slot :: way) = (slot.of? parts).bind (targetAt? · way) := by
  rcases display_cases shape with ⟨_, _, _, rfl⟩ | ⟨_, _, _, _, _, rfl⟩
  · rfl
  · rfl

theorem of?_eq_some_iff {slot : Slot} {part : Expr} :
    slot.of? parts = some part ↔ parts.length = slot.width ∧ parts[slot.index]? = some part := by
  rw [Slot.of?, Option.ite_none_right_eq_some]

/-! ## Leaves -/

/-- A target is a leaf, or has parts about which all is known. -/
@[elab_as_elim]
theorem targetInduction {motive : Expr → Prop}
    (leaf : ∀ target, elements? (unstarred target) = none → motive target)
    (display : ∀ target parts, elements? (unstarred target) = some parts →
      (∀ part ∈ parts, motive part) → motive target) (target : Expr) : motive target := by
  cases shape : elements? (unstarred target) with
  | none => exact leaf target shape
  | some parts =>
      apply display target parts shape
      intro part member
      exact targetInduction leaf display part
termination_by sizeOf target
decreasing_by exact sizeOf_lt_of_mem_elements shape member

/-- What is listed is what a way leads to, unless it leads on. -/
theorem mem_leaves {leaf : Leaf} :
    leaf ∈ leaves target ↔
      targetAt? target leaf.way = some leaf.target ∧ elements? leaf.target = none := by
  induction target using targetInduction generalizing leaf with
  | leaf target isLeaf =>
      rw [leaves_leaf isLeaf, List.mem_singleton]
      obtain ⟨way, part⟩ := leaf
      cases way with
      | nil =>
          simp only [targetAt?_nil, Leaf.mk.injEq, true_and, Option.some.injEq]
          constructor
          · rintro rfl
            exact ⟨rfl, isLeaf⟩
          · rintro ⟨isPart, _⟩
            exact isPart.symm
      | cons slot way => simp [targetAt?_leaf isLeaf]
  | display target parts shape ih =>
      rw [leaves_display shape]
      simp only [List.mem_flatMap, List.mem_map, Prod.exists]
      constructor
      · rintro ⟨part, index, listed, inner, isInner, rfl⟩
        have isPart := List.mem_zipIdx_iff_getElem?.mp listed
        obtain ⟨found, isLeaf⟩ := (ih part (List.mem_of_getElem? isPart)).mp isInner
        refine ⟨?_, isLeaf⟩
        rw [Leaf.under, targetAt?_display shape, of?_eq_some_iff.mpr ⟨rfl, isPart⟩]
        exact found
      · rintro ⟨found, isLeaf⟩
        obtain ⟨way, part⟩ := leaf
        cases way with
        | nil =>
            rw [targetAt?_nil] at found
            cases found
            cases isLeaf.symm.trans shape
        | cons slot way =>
            obtain ⟨index, width⟩ := slot
            rw [targetAt?_display shape, Option.bind_eq_some_iff] at found
            obtain ⟨outer, isOuter, found⟩ := found
            obtain ⟨rfl, isOuter⟩ := of?_eq_some_iff.mp isOuter
            refine ⟨outer, index, List.mem_zipIdx_iff_getElem?.mpr isOuter, ⟨way, part⟩, ?_, rfl⟩
            exact (ih outer (List.mem_of_getElem? isOuter)).mpr ⟨found, isLeaf⟩

/-- The order of leaves from left to right, by the indices on the way to them. -/
def Leaf.LeftOf (first second : Leaf) : Prop :=
  List.Lex (· < ·) (first.way.map (·.index)) (second.way.map (·.index))

theorem zipIdx_ascending (parts : List Expr) (start : Nat) :
    (parts.zipIdx start).Pairwise fun first second => first.2 < second.2 := by
  induction parts generalizing start with
  | nil => exact .nil
  | cons part rest ih =>
      rw [List.zipIdx_cons, List.pairwise_cons]
      refine ⟨?_, ih (start + 1)⟩
      intro later member
      exact List.le_snd_of_mem_zipIdx member

theorem leaves_leftToRight (target : Expr) : (leaves target).Pairwise Leaf.LeftOf := by
  induction target using targetInduction with
  | leaf target isLeaf =>
      rw [leaves_leaf isLeaf]
      exact List.pairwise_singleton _ _
  | display target parts shape ih =>
      rw [leaves_display shape, List.pairwise_flatMap]
      constructor
      · intro entry listed
        obtain ⟨part, index⟩ := entry
        have isPart := List.mem_of_getElem? (List.mem_zipIdx_iff_getElem?.mp listed)
        rw [List.pairwise_map]
        exact (ih part isPart).imp fun leftOf => .cons leftOf
      · refine (zipIdx_ascending parts 0).imp ?_
        intro first second earlier leaf isLeaf other isOther
        obtain ⟨inner, _, rfl⟩ := List.mem_map.mp isLeaf
        obtain ⟨innerOther, _, rfl⟩ := List.mem_map.mp isOther
        exact .rel earlier

/-! ## Values -/

/-- What a leaf receives from a value, if it receives anything. -/
def Leaf.received? (value : Expr) (leaf : Leaf) : Option (Expr × Expr) :=
  (valueAt? value leaf.way).map (leaf.target, ·)

theorem valueAt?_whole (noDisplay : elements? value = none) (way : List Slot) :
    valueAt? value way = some value := by
  cases way with
  | nil => rw [valueAt?]
  | cons slot way =>
      cases value with
      | sequence => cases noDisplay
      | _ => rfl

theorem valueAt?_display (display : elements? value = some values) (slot : Slot)
    (way : List Slot) :
    valueAt? value (slot :: way) = (slot.of? values).bind (valueAt? · way) := by
  cases value with
  | sequence =>
      cases display
      rfl
  | _ => cases display

theorem received?_under_whole (noDisplay : elements? value = none) (slot : Slot)
    (leaf : Leaf) : (leaf.under slot).received? value = leaf.received? value := by
  simp only [Leaf.received?, Leaf.under, valueAt?_whole noDisplay]

theorem received?_under_display {partValue : Expr} {slot : Slot}
    (display : elements? value = some values) (sameLength : values.length = slot.width)
    (isValue : values[slot.index]? = some partValue) (leaf : Leaf) :
    (leaf.under slot).received? value = leaf.received? partValue := by
  rw [Leaf.received?, Leaf.under, valueAt?_display display,
    of?_eq_some_iff.mpr ⟨sameLength, isValue⟩]
  rfl

theorem received?_under_mismatch {slot : Slot} (display : elements? value = some values)
    (otherLength : values.length ≠ slot.width) (leaf : Leaf) :
    (leaf.under slot).received? value = none := by
  rw [Leaf.received?, Leaf.under, valueAt?_display display, Slot.of?, if_neg otherLength]
  rfl

/-- Following the way to each leaf in the value pairs what taking both apart pairs. -/
theorem pairs_eq_leaves (target value : Expr) :
    pairs target value = (leaves target).filterMap (Leaf.received? value) := by
  induction target, value using pairs.induct with
  | case1 target value isLeaf =>
      rw [pairs_leaf isLeaf, leaves_leaf isLeaf]
      rfl
  | case2 target value parts shape noDisplay ih =>
      rw [pairs_whole shape noDisplay, leaves_display shape, List.filterMap_flatMap]
      conv => lhs; rw [← List.zipIdx_map_fst 0 parts, List.flatMap_map]
      apply List.flatMap_congr
      intro entry listed
      obtain ⟨part, index⟩ := entry
      have isPart := List.mem_of_getElem? (List.mem_zipIdx_iff_getElem?.mp listed)
      rw [ih part isPart, List.filterMap_map]
      congr
      funext leaf
      exact (received?_under_whole noDisplay _ leaf).symm
  | case3 target value parts shape values display sameLength ih =>
      rw [pairs_display shape display sameLength, leaves_display shape, List.filterMap_flatMap,
        List.flatMap_def, List.flatMap_def]
      congr 1
      apply List.ext_getElem
      · simp [sameLength]
      · intro index inZip _
        have inParts : index < parts.length := by simpa [sameLength] using inZip
        have inValues : index < values.length := sameLength ▸ inParts
        simp only [List.getElem_map, List.getElem_zip, List.getElem_zipIdx, Nat.zero_add]
        rw [ih _ (List.getElem_mem inParts), List.filterMap_map]
        congr
        funext leaf
        have isValue := List.getElem?_eq_getElem inValues
        exact (received?_under_display display sameLength.symm isValue leaf).symm
  | case4 target value parts shape values display otherLength =>
      rw [pairs_mismatch shape display otherLength, leaves_display shape, eq_comm,
        List.filterMap_eq_nil_iff]
      intro leaf member
      obtain ⟨⟨part, index⟩, _, member⟩ := List.mem_flatMap.mp member
      obtain ⟨inner, _, rfl⟩ := List.mem_map.mp member
      exact received?_under_mismatch display (Ne.symm otherLength) inner

/-- For every target, value and text, an assignment passes on, for each leaf of the target that is
a name or attribute chain of that text, from left to right, the value at the end of the way to the
leaf.  The leaves are all that the target has, in the order of their positions. -/
theorem valuesFor_by_position (unit : SourceUnit) (text : String) (target value : Expr) :
    (∀ leaf : Leaf, leaf ∈ leaves target ↔
      targetAt? target leaf.way = some leaf.target ∧
        ∀ span kind parts context, leaf.target ≠ .sequence span kind parts context) ∧
    (leaves target).Pairwise Leaf.LeftOf ∧
    valuesFor unit text target value =
      ((leaves target).filter fun leaf =>
        leaf.target.isVariable && unit.nameText leaf.target == text).filterMap fun leaf =>
          valueAt? value leaf.way := by
  refine ⟨?_, leaves_leftToRight target, ?_⟩
  · intro leaf
    rw [mem_leaves, elements?_eq_none_iff]
  · rw [valuesFor, pairs_eq_leaves, List.filterMap_filterMap, List.filterMap_filter]
    congr
    funext leaf
    cases found : valueAt? value leaf.way with
    | none => simp [Leaf.received?, found]
    | some received => simp [Leaf.received?, found]

/-- A starred target beside a name:
```
a, *rest = 1, 2
``` -/
def starring : SourceUnit where
  path := "starring.py"
  text := "a, *rest = 1, 2\n".toList
  suite := []

example : valuesFor starring "rest"
    (.sequence ⟨0, 8⟩ .tuple
      [.name ⟨0, 1⟩ "a" .store, .starred ⟨3, 8⟩ (.name ⟨4, 8⟩ "rest" .store) .store] .store)
    (.sequence ⟨11, 15⟩ .tuple [.constant ⟨11, 12⟩ .int, .constant ⟨14, 15⟩ .int] .load) =
      [.constant ⟨14, 15⟩ .int] := by cbv

end TypeTrace.Flow
