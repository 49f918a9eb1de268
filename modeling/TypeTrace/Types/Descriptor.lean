import TypeTrace.Types.Members

/-!
# Type descriptors

A type is a name or a union of types.  Unions may be nested, empty or repetitive;
`join` builds the flat ones without repetitions.
-/

namespace TypeTrace.Types

/-- A named type or a union of alternatives. -/
inductive Descriptor where
  | named (name : String)
  | union (members : List Descriptor)
  deriving Inhabited

abbrev Descriptors := List Descriptor

mutual

/-- Names of every member, nested unions flattened. -/
def Descriptor.memberNames : Descriptor → List String
  | .named name => [name]
  | .union members => Descriptors.memberNames members

/-- Names of every member of a list of types. -/
def Descriptors.memberNames : Descriptors → List String
  | [] => []
  | member :: rest => Descriptor.memberNames member ++ Descriptors.memberNames rest

end

mutual

/-- The type as text, with a bar between the alternatives of each union. -/
def Descriptor.text : Descriptor → String
  | .named name => name
  | .union members => " | ".intercalate (Descriptors.texts members)

/-- The texts of a list of types. -/
def Descriptors.texts : Descriptors → List String
  | [] => []
  | member :: rest => Descriptor.text member :: Descriptors.texts rest

end

namespace Descriptor

/-- Labels of a type: the members of each member name, each name under the limit. -/
def labels (type : Descriptor) (limit : Option Nat) : List String :=
  type.memberNames.flatMap (unionMembers · limit)

/-- The name of a type that is no union. -/
def simpleName? : Descriptor → Option String
  | .named name => some name
  | .union _ => none

end Descriptor

/-- Elements in order of first occurrence, after those that were `seen` before. -/
def distinctFrom {α : Type} [DecidableEq α] (seen : List α) : List α → List α
  | [] => []
  | value :: rest =>
      if value ∈ seen then
        distinctFrom seen rest
      else
        value :: distinctFrom (value :: seen) rest

/-- Distinct elements in order of first occurrence. -/
def distinct {α : Type} [DecidableEq α] (values : List α) : List α :=
  distinctFrom [] values

namespace Descriptor

/-- The type with the given member names, which are taken to be distinct. -/
def ofNames? : List String → Option Descriptor
  | [] => none
  | [name] => some (.named name)
  | names => some (.union (names.map .named))

/-- Union of types, flattened and without repetitions.  One name alone is that named
type, and no name at all is no type. -/
def join (types : Descriptors) : Option Descriptor :=
  ofNames? (distinct (Descriptors.memberNames types))

end Descriptor

end TypeTrace.Types
