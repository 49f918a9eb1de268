import TypeTrace.Proofs.Types.Members
import TypeTrace.Types.Descriptor

/-!
# Types and their texts

The text of a type is made of the names of its members, joined at every level of nesting.
Cutting that text finds what cutting each name finds, as long as no name leaves a bracket
open: then every bar that was put between two names is at depth zero.
-/

namespace TypeTrace.Types

namespace Descriptor

/-- Induction over types: a union inherits from its members. -/
@[elab_as_elim]
theorem unionInduction {motive : Descriptor → Prop} (named : ∀ name, motive (.named name))
    (union : ∀ members, (∀ member ∈ members, motive member) → motive (.union members))
    (type : Descriptor) : motive type := by
  cases type with
  | named name => exact named name
  | union members =>
      apply union
      intro member _
      exact unionInduction named union member
termination_by sizeOf type
decreasing_by
  have smaller := List.sizeOf_lt_of_mem ‹member ∈ members›
  subst_vars
  simp only [Descriptor.union.sizeOf_spec]
  omega

end Descriptor

theorem Descriptors.memberNames_eq (types : Descriptors) :
    Descriptors.memberNames types = types.flatMap Descriptor.memberNames := by
  induction types with
  | nil => rw [Descriptors.memberNames, List.flatMap_nil]
  | cons type rest ih => rw [Descriptors.memberNames, ih, List.flatMap_cons]

theorem Descriptors.texts_eq (types : Descriptors) :
    Descriptors.texts types = types.map Descriptor.text := by
  induction types with
  | nil => rw [Descriptors.texts, List.map_nil]
  | cons type rest ih => rw [Descriptors.texts, ih, List.map_cons]

theorem Closed.intercalate {texts : List (List Char)} (closed : ∀ text ∈ texts, Closed text) :
    Closed (separator.intercalate texts) := by
  induction texts with
  | nil => rfl
  | cons text rest ih =>
      rw [List.forall_mem_cons] at closed
      cases rest with
      | nil => simpa using closed.1
      | cons next rest =>
          have closedRest := ih closed.2
          unfold Closed at closed closedRest ⊢
          rw [List.intercalate_cons_cons, depthBehind_append, depthBehind_append, closed.1]
          exact closedRest

namespace Descriptor

/-- The text of a union, as the texts of its members with separators between them. -/
theorem toList_text_union (members : Descriptors) :
    (Descriptor.union members).text.toList =
      separator.intercalate (members.map (·.text.toList)) := by
  rw [text, Descriptors.texts_eq, toList_intercalate_separator, List.map_map]
  rfl

theorem memberNames_union (members : Descriptors) :
    (Descriptor.union members).memberNames = members.flatMap memberNames := by
  rw [memberNames, Descriptors.memberNames_eq]

variable {type : Descriptor}

theorem closed_text (closed : ∀ name ∈ type.memberNames, Closed name.toList) :
    Closed type.text.toList := by
  induction type using unionInduction with
  | named name =>
      rw [text]
      exact closed name (by rw [memberNames]; exact List.mem_singleton_self name)
  | union members ih =>
      rw [memberNames_union] at closed
      rw [toList_text_union]
      apply Closed.intercalate
      intro shown member
      obtain ⟨part, isPart, rfl⟩ := List.mem_map.mp member
      apply ih part isPart
      intro name isName
      exact closed name (List.mem_flatMap_of_mem isPart isName)

theorem members_text (closed : ∀ name ∈ type.memberNames, Closed name.toList) :
    Types.members type.text.toList = type.memberNames.flatMap (Types.members ·.toList) := by
  induction type using unionInduction with
  | named name => rw [text, memberNames, List.flatMap_singleton]
  | union members ih =>
      rw [memberNames_union] at closed
      have closedNames : ∀ part ∈ members, ∀ name ∈ part.memberNames, Closed name.toList := by
        intro part isPart name isName
        exact closed name (List.mem_flatMap_of_mem isPart isName)
      have closedTexts : ∀ shown ∈ (members.map (·.text.toList)).dropLast, Closed shown := by
        intro shown member
        obtain ⟨part, isPart, rfl⟩ := List.mem_map.mp (List.dropLast_subset _ member)
        exact closed_text (closedNames part isPart)
      rw [toList_text_union, members_intercalate closedTexts, memberNames_union,
        List.flatMap_map, List.flatMap_assoc]
      apply List.flatMap_congr
      intro part isPart
      exact ih part isPart (closedNames part isPart)

/-- However a type is nested, its labels are the members that its text is cut into, if none
of its names leaves a bracket open. -/
theorem labels_eq_unionMembers_text
    (closed : ∀ name ∈ type.memberNames, Closed name.toList) :
    type.labels none = unionMembers type.text none := by
  rw [unionMembers, members_text closed, labels, capped, List.map_flatMap]
  rfl

/-- A type with a name that is a union itself, an empty union, an empty name, blanks at the
ends and a closing bracket without a partner. -/
def mixed : Descriptor :=
  .union [.named "A|B ", .union [], .union [.named "list[C | D]", .named "", .named "]E"]]

theorem labels_mixed :
    (∀ name ∈ mixed.memberNames, Closed name.toList) ∧
      mixed.labels none = unionMembers mixed.text none := by
  have closed : ∀ name ∈ mixed.memberNames, Closed name.toList := by decide
  exact ⟨closed, labels_eq_unionMembers_text closed⟩

/-- A name that leaves a bracket open hides the bar behind it. -/
example :
    (union [.named "list[A", .named "B"]).labels none = ["list[A", "B"] ∧
      unionMembers (union [.named "list[A", .named "B"]).text none = ["list[A | B"] := by
  decide

end Descriptor

end TypeTrace.Types
