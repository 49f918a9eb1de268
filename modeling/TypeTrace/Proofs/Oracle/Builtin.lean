import TypeTrace.Oracle.Builtin
import TypeTrace.Proofs.Types.Names
import TypeTrace.Syntax.Function

/-!
# What the builtin oracle answers

The names that the oracle gives out are identifiers, or an identifier with the texts of other
types in brackets behind it.  Operators, selecting functions and methods pass names on or
answer with a fixed one.  So every answer is a flat type, and no limit on union members takes
anything from it.
-/

namespace TypeTrace.Builtin

open TypeTrace.Syntax TypeTrace.Types

/-! ## Fixed names -/

theorem flat_of_identifier {name : String} (identifier : IsIdentifier name) :
    Flat (.named name) :=
  .named identifier.isName

theorem literalType_identifier (literal : Literal) : IsIdentifier (literalType literal) := by
  cases literal <;> decide

theorem functionTypes_identifiers : ∀ row ∈ functionTypes, IsIdentifier row.2 := by decide

theorem stringMethods_identifiers :
    ∀ row ∈ stringMethods, row.2 ≠ "list[str]" → IsIdentifier row.2 := by decide

theorem bytesMethods_identifiers : ∀ row ∈ bytesMethods, IsIdentifier row.2 := by decide

theorem mem_of_lookup {table : List (String × String)} {key value : String}
    (found : table.lookup key = some value) : (key, value) ∈ table := by
  obtain ⟨before, after, isTable, _⟩ := List.lookup_eq_some_iff.mp found
  rw [isTable]
  exact List.mem_append_right before List.mem_cons_self

/-! ## Names built from other types -/

theorem flat_containerType {name : String} {element : Option Descriptor}
    (identifier : IsIdentifier name) (flat : ∀ type ∈ element, Flat type) :
    Flat (containerType name element) := by
  cases element with
  | none => exact flat_of_identifier identifier
  | some type =>
      refine .named (identifier.isName_of_brackets (flat type rfl).nested_text ?_)
      simp

/-- The comma between the types in brackets. -/
theorem nested_comma : Nested ", ".toList := by
  have nested : Nested [',', ' '] := .plain (by decide) (.plain (by decide) .nil)
  exact nested

theorem flat_tupleType {elements : List (Option Descriptor)}
    (flat : ∀ type, some type ∈ elements → Flat type) : Flat (tupleType elements) := by
  cases elements with
  | nil => exact flat_of_identifier (by decide)
  | cons first rest =>
      have identifier : IsIdentifier "tuple" := by decide
      have unknown : IsIdentifier "Any" := by decide
      have nested : ∀ element ∈ first :: rest,
          Nested ((element.map Descriptor.text).getD "Any").toList := by
        intro element member
        cases element with
        | none => exact unknown.nested
        | some type => exact (flat type member).nested_text
      rw [← List.forall_mem_map] at nested
      refine .named (identifier.isName_of_brackets (nested_comma.intercalate nested) ?_)
      simp [String.toList_intercalate, Function.comp_def]

theorem flat_dictType {key value : Option Descriptor} (flatKey : ∀ type ∈ key, Flat type)
    (flatValue : ∀ type ∈ value, Flat type) : Flat (dictType key value) := by
  cases key with
  | none => exact flat_of_identifier (by decide)
  | some key =>
      cases value with
      | none => exact flat_of_identifier (by decide)
      | some value =>
          have identifier : IsIdentifier "dict" := by decide
          have nested : Nested (key.text.toList ++ ", ".toList ++ value.text.toList) :=
            ((flatKey key rfl).nested_text.append nested_comma).append
              (flatValue value rfl).nested_text
          refine .named (identifier.isName_of_brackets nested ?_)
          simp

/-! ## Names passed on -/

theorem isName_of_simpleName? {known : Option Descriptor} {name : String}
    (flat : ∀ type ∈ known, Flat type)
    (isSimple : known.bind Descriptor.simpleName? = some name) : IsName name := by
  obtain ⟨type, isKnown, isNamed⟩ := Option.bind_eq_some_iff.mp isSimple
  cases flat type isKnown with
  | named isName =>
      cases isNamed
      exact isName
  | union => cases isNamed

theorem operationType?_cases {operator : BinaryOperator} {left right name : String}
    (known : operationType? operator left right = some name) :
    name = left ∨ name ∈ ["int", "float", "str"] := by
  cases operator <;> simp [operationType?, numericType?] at known <;> grind

theorem isName_of_binaryType? {operator : BinaryOperator} {left right : Option String}
    {name : String} (isName : ∀ operand ∈ left, IsName operand)
    (known : binaryType? operator left right = some name) : IsName name := by
  have fixed : ∀ result ∈ ["int", "float", "str"], IsIdentifier result := by decide
  unfold binaryType? at known
  split at known
  next =>
    cases known
    exact (fixed "float" (by decide)).isName
  next leftName rightName =>
    rcases operationType?_cases known with rfl | isFixed
    · exact isName name rfl
    · exact (fixed name isFixed).isName
  next => cases known

theorem isName_of_methodType? {receiver method name : String}
    (known : methodType? receiver method = some name) : IsName name := by
  unfold methodType? at known
  split at known
  next =>
    by_cases isList : name = "list[str]"
    · have identifier : IsIdentifier "list" := by decide
      have element : IsIdentifier "str" := by decide
      rw [isList]
      exact identifier.isName_of_brackets element.nested (by decide)
    · exact (stringMethods_identifiers _ (mem_of_lookup known) isList).isName
  next =>
    split at known
    next => exact (bytesMethods_identifiers _ (mem_of_lookup known)).isName
    next => cases known

/-! ## Answers -/

variable {isClass : String → Bool}

/-- Whatever is known about some expressions, their join is flat if what is known is. -/
theorem flat_of_join_filterMap {α : Type} {parts : List α} {known : α → Option Descriptor}
    {type : Descriptor} (flat : ∀ part ∈ parts, ∀ type ∈ known part, Flat type)
    (joined : Descriptor.join (parts.filterMap known) = some type) : Flat type := by
  refine flat_of_join ?_ joined
  intro part member
  obtain ⟨source, isSource, isKnown⟩ := List.mem_filterMap.mp member
  exact flat source isSource part isKnown

theorem flat_of_join_infer {parts : List Expr}
    (flat : ∀ part ∈ parts, ∀ {type : Descriptor}, infer isClass part = some type → Flat type) :
    ∀ type ∈ Descriptor.join (parts.attach.filterMap fun part => infer isClass part.1),
      Flat type := by
  intro type joined
  refine flat_of_join_filterMap ?_ joined
  intro part _ type isKnown
  exact flat part.1 part.2 isKnown

/-- The call of a name: of a class, of a selecting function, or of another builtin. -/
theorem infer_call_name (span nameSpan : Span) (id : String) (context : Context)
    (arguments keywords : List Expr) :
    infer isClass (.call span (.name nameSpan id context) arguments keywords) =
      if isClass id then some (.named id)
      else if id ∈ selectors then arguments.head?.bind (infer isClass)
      else (functionTypes.lookup id).map .named := by
  cases arguments with
  | nil =>
      rw [infer]
      rfl
  | cons argument others =>
      rw [infer]
      rfl

/-- By induction on what is inferred from what: every answer is built from flat answers. -/
theorem flat_of_infer (identifiers : ∀ name, isClass name = true → IsIdentifier name)
    {expression : Expr} {type : Descriptor} (known : infer isClass expression = some type) :
    Flat type := by
  induction expression using infer.induct isClass generalizing type with
  | case1 span literal =>
      rw [infer] at known
      cases known
      exact flat_of_identifier (literalType_identifier literal)
  | case2 | case7 | case8 | case9 | case10 | case11 | case12 | case13 | case14 =>
      rw [infer] at known
      cases known
      exact flat_of_identifier (by decide)
  | case3 span elements context ih | case4 span elements ih =>
      rw [infer] at known
      cases known
      exact flat_containerType (by decide) (flat_of_join_infer ih)
  | case5 span elements context ih =>
      rw [infer] at known
      cases known
      apply flat_tupleType
      intro type member
      obtain ⟨part, _, isKnown⟩ := List.mem_map.mp member
      exact ih part.1 part.2 isKnown
  | case6 span items keysIh valuesIh =>
      rw [infer] at known
      cases known
      exact flat_dictType (flat_of_join_infer keysIh) (flat_of_join_infer valuesIh)
  | case15 span operand ih | case16 span operand ih =>
      rw [infer] at known
      exact ih known
  | case17 span left operator right leftIh rightIh =>
      rw [infer] at known
      obtain ⟨name, isKnown, rfl⟩ := Option.map_eq_some_iff.mp known
      apply Flat.named
      refine isName_of_binaryType? ?_ isKnown
      intro operand isSimple
      exact isName_of_simpleName? (fun type => leftIh) isSimple
  | case18 span operator values ih =>
      rw [infer] at known
      exact flat_of_join_infer ih type known
  | case19 span test body orelse bodyIh orelseIh =>
      rw [infer] at known
      refine flat_of_join_filterMap ?_ known
      intro part member type isKnown
      rw [List.mem_cons, List.mem_singleton] at member
      rcases member with rfl | rfl
      · exact bodyIh isKnown
      · exact orelseIh isKnown
  | case20 span nameSpan id context arguments keywords definesClass =>
      rw [infer_call_name, if_pos definesClass] at known
      cases known
      exact flat_of_identifier (identifiers id definesClass)
  | case21 span nameSpan id context keywords noClass selects =>
      rw [infer_call_name, if_neg noClass, if_pos selects] at known
      cases known
  | case22 span nameSpan id context keywords noClass selects argument others ih =>
      rw [infer_call_name, if_neg noClass, if_pos selects] at known
      exact ih known
  | case23 span nameSpan id context arguments keywords noClass noSelector =>
      rw [infer_call_name, if_neg noClass, if_neg noSelector] at known
      obtain ⟨name, found, rfl⟩ := Option.map_eq_some_iff.mp known
      exact flat_of_identifier (functionTypes_identifiers _ (mem_of_lookup found))
  | case24 span nameSpan receiver method context arguments keywords ih =>
      rw [infer] at known
      obtain ⟨name, _, isMethod⟩ := Option.bind_eq_some_iff.mp known
      obtain ⟨result, found, rfl⟩ := Option.map_eq_some_iff.mp isMethod
      exact .named (isName_of_methodType? found)
  | case25 =>
      rw [infer] at known
      · cases known
      all_goals assumption

theorem exists_visit_of_definesClass {unit : SourceUnit} {name : String}
    (defines : unit.definesClass name = true) :
    ∃ visit ∈ unit.visits, visit.node.className? = some name := by
  obtain ⟨visit, visited, isClass⟩ := List.any_eq_true.mp defines
  refine ⟨visit, visited, ?_⟩
  split at isClass
  next _ className _ _ _ _ isDefinition =>
    rw [isDefinition, Node.className?, eq_of_beq isClass]
  next => cases isClass

/-- For every unit whose classes are named by identifiers and every expression, what the
builtin oracle answers is a name or a union of several different names.  Its labels are these
names under every limit that admits one, and its text is cut into them. -/
theorem oracle_flat {unit : SourceUnit} {expression : Expr} {type : Descriptor}
    (identifiers : ∀ visit ∈ unit.visits, ∀ name, visit.node.className? = some name →
      IsIdentifier name)
    (known : oracle unit expression = some type) :
    Flat type ∧
      (∀ limit, limit ≠ some 0 → type.labels limit = type.memberNames) ∧
      unionMembers type.text none = type.memberNames := by
  have flat : Flat type := by
    refine flat_of_infer ?_ known
    intro name defines
    obtain ⟨visit, visited, isClass⟩ := exists_visit_of_definesClass defines
    exact identifiers visit visited name isClass
  exact ⟨flat, fun limit => flat.labels_eq, flat.unionMembers_text⟩

/-! ## An answer with brackets and bars -/

/-- The choice between a number and a list of an object and a string: `1 or [P(), 's']`. -/
def choice : Expr :=
  .boolOp ⟨22, 37⟩ .or [
    .constant ⟨22, 23⟩ .int,
    .sequence ⟨27, 37⟩ .list
      [.call ⟨28, 31⟩ (.name ⟨28, 29⟩ "P" .load) [] [], .constant ⟨33, 36⟩ .str] .load]

/-- A unit that makes the choice and defines the class of the object:
```
class P:
    pass
x = 1 or [P(), 's']
``` -/
def choosing : SourceUnit where
  path := "choosing.py"
  text := "class P:\n    pass\nx = 1 or [P(), 's']\n".toList
  suite := [
    .classDef ⟨0, 17⟩ "P" [] [] [] [.simple ⟨13, 17⟩ .pass],
    .assign ⟨18, 37⟩ [.name ⟨18, 19⟩ "x" .store] choice]

theorem oracle_choice_flat :
    oracle choosing choice = some (.union [.named "int", .named "list[P | str]"]) ∧
      Flat (.union [.named "int", .named "list[P | str]"]) ∧
      (∀ limit, limit ≠ some 0 →
        (Descriptor.union [.named "int", .named "list[P | str]"]).labels limit =
          ["int", "list[P | str]"]) ∧
      unionMembers "int | list[P | str]" none = ["int", "list[P | str]"] := by
  have classNames : choosing.visits.filterMap (·.node.className?) = ["P"] := by cbv
  have identifiers : ∀ visit ∈ choosing.visits, ∀ name, visit.node.className? = some name →
      IsIdentifier name := by
    intro visit visited name isClass
    have isListed : name ∈ choosing.visits.filterMap (·.node.className?) :=
      List.mem_filterMap.mpr ⟨visit, visited, isClass⟩
    rw [classNames, List.mem_singleton] at isListed
    rw [isListed]
    decide
  have known : oracle choosing choice =
      some (.union [.named "int", .named "list[P | str]"]) := by cbv
  exact ⟨known, oracle_flat identifiers known⟩

end TypeTrace.Builtin
