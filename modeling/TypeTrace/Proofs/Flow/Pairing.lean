import TypeTrace.Flow.Pairing
import TypeTrace.Proofs.Syntax.Visits

/-!
# Pairs of targets and values

The four ways in which a target and a value are paired, each as an equation.  A leaf takes
the value as it is; a target with parts hands a value that is no display to each of them,
takes a display of its own length apart, and gets nothing from one of another length.
-/

namespace TypeTrace.Flow

open Syntax

variable {target value : Expr} {parts values : List Expr}

theorem pairs_leaf (leaf : elements? (unstarred target) = none) :
    pairs target value = [(unstarred target, value)] := by
  rw [pairs]
  split
  next => rfl
  next shape => cases leaf.symm.trans shape

theorem pairs_whole (shape : elements? (unstarred target) = some parts)
    (noDisplay : elements? value = none) :
    pairs target value = parts.flatMap (pairs · value) := by
  rw [pairs]
  split
  next leaf => cases leaf.symm.trans shape
  next targets other =>
    cases shape.symm.trans other
    simp only [noDisplay]
    conv => rhs; rw [← List.attach_map_subtype_val parts, List.flatMap_map]

theorem pairs_display (shape : elements? (unstarred target) = some parts)
    (display : elements? value = some values) (sameLength : parts.length = values.length) :
    pairs target value =
      (parts.zip values).flatMap fun (part, partValue) => pairs part partValue := by
  rw [pairs]
  split
  next leaf => cases leaf.symm.trans shape
  next targets other =>
    cases shape.symm.trans other
    simp only [display, sameLength, ↓reduceIte]
    conv => rhs; rw [← List.attach_map_subtype_val parts, List.zip_map_left, List.flatMap_map]
    rfl

theorem pairs_mismatch (shape : elements? (unstarred target) = some parts)
    (display : elements? value = some values) (otherLength : parts.length ≠ values.length) :
    pairs target value = [] := by
  rw [pairs]
  split
  next leaf => cases leaf.symm.trans shape
  next targets other =>
    cases shape.symm.trans other
    simp [display, otherLength]

theorem expr_mem_children_of_elements? {part : Expr}
    (display : elements? value = some parts) (member : part ∈ parts) :
    Node.expr part ∈ value.children := by
  cases value with
  | sequence =>
      cases display
      exact List.mem_map.mpr ⟨part, member, rfl⟩
  | _ => cases display

/-- Every value that an assignment hands out is the assigned value or a part of it. -/
theorem pairs_within {family : Node → Prop} (hereditary : Hereditary family)
    (whole : family (.expr value)) :
    ∀ pair ∈ pairs target value, family (.expr pair.2) := by
  induction target, value using pairs.induct with
  | case1 target value leaf =>
      intro pair member
      rw [pairs_leaf leaf] at member
      cases List.mem_singleton.mp member
      exact whole
  | case2 target value parts shape noDisplay ih =>
      intro pair member
      rw [pairs_whole shape noDisplay] at member
      obtain ⟨part, isPart, member⟩ := List.mem_flatMap.mp member
      exact ih part isPart whole pair member
  | case3 target value parts shape values display sameLength ih =>
      intro pair member
      rw [pairs_display shape display sameLength] at member
      obtain ⟨⟨part, partValue⟩, zipped, member⟩ := List.mem_flatMap.mp member
      have isPart := (List.of_mem_zip zipped).1
      have isValue := expr_mem_children_of_elements? display (List.of_mem_zip zipped).2
      exact ih part isPart partValue (hereditary whole isValue) pair member
  | case4 target value parts shape values display otherLength =>
      rw [pairs_mismatch shape display otherLength]
      intro pair member
      cases member

end TypeTrace.Flow
