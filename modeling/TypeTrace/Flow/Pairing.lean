import TypeTrace.Syntax.Node

/-!
# Pairing targets with values

An assignment to a tuple or list of targets takes a display apart, level by level.  A
display of another length fits nothing, and any other value goes to every target as a
whole.
-/

namespace TypeTrace.Flow

open Syntax

/-- The elements of a tuple or list display. -/
def elements? : Expr → Option (List Expr)
  | .sequence _ _ elements _ => some elements
  | _ => none

/-- A target without the star in front of it. -/
def unstarred : Expr → Expr
  | .starred _ value _ => value
  | target => target

theorem sizeOf_unstarred_le (target : Expr) :
    sizeOf (unstarred target) ≤ sizeOf target := by
  cases target <;> simp only [unstarred, Expr.starred.sizeOf_spec] <;> omega

theorem sizeOf_lt_of_mem_elements {target part : Expr} {elements : List Expr}
    (equal : elements? (unstarred target) = some elements) (member : part ∈ elements) :
    sizeOf part < sizeOf target := by
  have whole := sizeOf_unstarred_le target
  have smaller := List.sizeOf_lt_of_mem member
  cases shape : unstarred target with
  | sequence =>
      simp only [shape, elements?, Option.some.injEq] at equal
      simp only [shape, Expr.sequence.sizeOf_spec, equal] at whole
      omega
  | _ => simp [shape, elements?] at equal

/-- The targets inside a target, left to right, each with the value it receives. -/
def pairs (target value : Expr) : List (Expr × Expr) :=
  match _shape : elements? (unstarred target) with
  | none => [(unstarred target, value)]
  | some targets =>
      match elements? value with
      | none => targets.attach.flatMap fun ⟨part, _⟩ => pairs part value
      | some values =>
          if targets.length = values.length then
            (targets.attach.zip values).flatMap fun (⟨part, _⟩, partValue) =>
              pairs part partValue
          else
            []
termination_by sizeOf target
decreasing_by
  all_goals exact sizeOf_lt_of_mem_elements _shape ‹_›

end TypeTrace.Flow
