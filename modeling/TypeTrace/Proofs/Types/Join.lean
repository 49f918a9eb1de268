import Mathlib.Data.List.Lex
import TypeTrace.Proofs.Types.Names

/-!
# Joined types

A way into nested unions says which member to enter at each of them.  Ways are compared like
words in a dictionary, which is the order in which the names of a type are read.  A join
lists the names that ways lead to, each where the first way to it stands, and so forgets how
its types were nested and how they were grouped (`join_normal`).
-/

namespace TypeTrace.Types

/-! ## Ways to names -/

/-- The name at the end of a way. -/
def nameAt? : Descriptor → List Nat → Option String
  | .named name, [] => some name
  | .named _, _ :: _ => none
  | .union _, [] => none
  | .union members, index :: way => members[index]?.bind (nameAt? · way)

/-- A name and a way to it. -/
structure Mention where
  way : List Nat
  name : String

/-- A mention in a member, seen from the union around it. -/
def Mention.under (index : Nat) (mention : Mention) : Mention :=
  ⟨index :: mention.way, mention.name⟩

/-- The order of mentions from left to right. -/
def Mention.LeftOf (first second : Mention) : Prop :=
  List.Lex (· < ·) first.way second.way

mutual

/-- The mentions in a type from left to right. -/
def Descriptor.mentions : Descriptor → List Mention
  | .named name => [⟨[], name⟩]
  | .union members => Descriptors.mentions 0 members

/-- The mentions in a list of types, the first of which has the given index. -/
def Descriptors.mentions (index : Nat) : Descriptors → List Mention
  | [] => []
  | member :: rest =>
      (Descriptor.mentions member).map (.under index) ++ Descriptors.mentions (index + 1) rest

end

theorem Descriptors.mentions_eq (types : Descriptors) (start : Nat) :
    Descriptors.mentions start types =
      (types.zipIdx start).flatMap fun (type, index) => type.mentions.map (.under index) := by
  induction types generalizing start with
  | nil => rw [Descriptors.mentions, List.zipIdx_nil, List.flatMap_nil]
  | cons type rest ih => rw [Descriptors.mentions, ih, List.zipIdx_cons, List.flatMap_cons]

namespace Descriptor

theorem mentions_union (members : Descriptors) :
    (Descriptor.union members).mentions =
      members.zipIdx.flatMap fun (member, index) => member.mentions.map (.under index) := by
  rw [mentions, Descriptors.mentions_eq]

variable {type : Descriptor}

theorem map_name_mentions (type : Descriptor) : type.mentions.map (·.name) = type.memberNames := by
  induction type using unionInduction with
  | named name => rw [mentions, memberNames, List.map_singleton]
  | union members ih =>
      have names : ∀ entry ∈ members.zipIdx,
          (entry.1.mentions.map (Mention.under entry.2)).map (·.name) = entry.1.memberNames := by
        intro entry listed
        rw [List.map_map, ← ih entry.1 (List.fst_mem_of_mem_zipIdx listed)]
        rfl
      rw [mentions_union, memberNames_union, List.map_flatMap, List.flatMap_congr names]
      conv => rhs; rw [← List.zipIdx_map_fst 0 members, List.flatMap_map]

/-- What is mentioned is what ways lead to. -/
theorem mem_mentions {mention : Mention} :
    mention ∈ type.mentions ↔ nameAt? type mention.way = some mention.name := by
  induction type using unionInduction generalizing mention with
  | named name =>
      obtain ⟨way, shown⟩ := mention
      cases way with
      | nil => simp [mentions, nameAt?, eq_comm]
      | cons index way => simp [mentions, nameAt?]
  | union members ih =>
      rw [mentions_union]
      simp only [List.mem_flatMap, List.mem_map, Prod.exists]
      constructor
      · rintro ⟨member, index, listed, inner, isInner, rfl⟩
        have isMember := List.mem_zipIdx_iff_getElem?.mp listed
        have found := (ih member (List.mem_of_getElem? isMember)).mp isInner
        simp [Mention.under, nameAt?, isMember, found]
      · intro found
        obtain ⟨way, shown⟩ := mention
        cases way with
        | nil => cases found
        | cons index way =>
            obtain ⟨member, isMember, inside⟩ := Option.bind_eq_some_iff.mp found
            refine ⟨member, index, List.mem_zipIdx_iff_getElem?.mpr isMember, ⟨way, shown⟩, ?_, rfl⟩
            exact (ih member (List.mem_of_getElem? isMember)).mpr inside

theorem mentions_leftToRight (type : Descriptor) : type.mentions.Pairwise Mention.LeftOf := by
  induction type using unionInduction with
  | named name =>
      rw [mentions]
      exact List.pairwise_singleton _ _
  | union members ih =>
      rw [mentions_union, List.pairwise_flatMap]
      constructor
      · intro entry listed
        rw [List.pairwise_map]
        apply (ih entry.1 (List.fst_mem_of_mem_zipIdx listed)).imp
        intro first second leftOf
        exact .cons leftOf
      · have ascending : members.zipIdx.Pairwise fun first second => first.2 < second.2 := by
          rw [← List.pairwise_map, List.zipIdx_map_snd]
          exact List.pairwise_lt_range'
        apply ascending.imp
        intro first second smaller left isLeft right isRight
        obtain ⟨_, _, rfl⟩ := List.mem_map.mp isLeft
        obtain ⟨_, _, rfl⟩ := List.mem_map.mp isRight
        exact .rel smaller

end Descriptor

/-! ## Distinct values -/

section Distinct

variable {α : Type}

/-- A value occurs in front of every occurrence of another one. -/
def FirstBefore (values : List α) (first second : α) : Prop :=
  ∃ before after, values = before ++ first :: after ∧ second ∉ before ∧ second ≠ first

theorem FirstBefore.cons {values : List α} {first second head : α}
    (before : FirstBefore values first second) (differs : second ≠ head) :
    FirstBefore (head :: values) first second := by
  obtain ⟨front, after, rfl, isNew, apart⟩ := before
  exact ⟨head :: front, after, rfl, List.not_mem_cons_of_ne_of_not_mem differs isNew, apart⟩

variable [DecidableEq α] {seen other : List α}

theorem distinctFrom_ordered (seen values : List α) :
    (distinctFrom seen values).Pairwise (FirstBefore values) := by
  induction values generalizing seen with
  | nil => exact .nil
  | cons head rest ih =>
      by_cases known : head ∈ seen
      · rw [distinctFrom, if_pos known]
        apply (ih seen).imp_of_mem
        intro first second _ listed before
        apply before.cons
        rintro rfl
        exact (mem_distinctFrom.mp listed).2 known
      · rw [distinctFrom, if_neg known, List.pairwise_cons]
        have differs : ∀ value ∈ distinctFrom (head :: seen) rest, value ≠ head := by
          rintro value listed rfl
          exact (mem_distinctFrom.mp listed).2 List.mem_cons_self
        constructor
        · intro value listed
          exact ⟨[], rest, rfl, List.not_mem_nil, differs value listed⟩
        · apply (ih (head :: seen)).imp_of_mem
          intro first second _ listed before
          exact before.cons (differs second listed)

/-- Of what was seen before only the elements count. -/
theorem distinctFrom_congr (same : ∀ value, value ∈ seen ↔ value ∈ other) (values : List α) :
    distinctFrom seen values = distinctFrom other values := by
  induction values generalizing seen other with
  | nil => rfl
  | cons head rest ih =>
      have extended : ∀ value, value ∈ head :: seen ↔ value ∈ head :: other := by
        intro value
        rw [List.mem_cons, List.mem_cons, same]
      simp only [distinctFrom, same head, ih same, ih extended]

theorem distinctFrom_append (seen left right : List α) :
    distinctFrom seen (left ++ right) =
      distinctFrom seen left ++ distinctFrom (left ++ seen) right := by
  induction left generalizing seen with
  | nil => rfl
  | cons head rest ih =>
      by_cases known : head ∈ seen
      · have same : ∀ value, value ∈ rest ++ seen ↔ value ∈ head :: rest ++ seen := by
          intro value
          simp only [List.cons_append, List.mem_cons, List.mem_append]
          constructor
          · exact .inr
          · rintro (rfl | later)
            · exact .inr known
            · exact later
        rw [List.cons_append, distinctFrom, if_pos known, ih, distinctFrom, if_pos known,
          distinctFrom_congr same]
      · have same : ∀ value, value ∈ rest ++ head :: seen ↔ value ∈ head :: rest ++ seen := by
          intro value
          simp only [List.cons_append, List.mem_cons, List.mem_append]
          exact or_left_comm
        rw [List.cons_append, distinctFrom, if_neg known, ih, distinctFrom, if_neg known,
          List.cons_append, distinctFrom_congr same]

/-- Leaving out beforehand what would be left out later changes nothing. -/
theorem distinctFrom_distinctFrom (fewer : other ⊆ seen) (values : List α) :
    distinctFrom seen (distinctFrom other values) = distinctFrom seen values := by
  induction values generalizing seen other with
  | nil => rfl
  | cons head rest ih =>
      by_cases before : head ∈ other
      · simp only [distinctFrom, if_pos before, if_pos (fewer before), ih fewer]
      · by_cases known : head ∈ seen
        · simp only [distinctFrom, if_neg before, if_pos known]
          exact ih (List.cons_subset.mpr ⟨known, fewer⟩)
        · simp only [distinctFrom, if_neg before, if_neg known]
          rw [ih (List.cons_subset_cons head fewer)]

theorem distinctFrom_flatMap {β : Type} (seen : List α) (parts : List β) (values : β → List α) :
    distinctFrom seen (parts.flatMap fun part => distinct (values part)) =
      distinctFrom seen (parts.flatMap values) := by
  induction parts generalizing seen with
  | nil => rfl
  | cons part rest ih =>
      have same : ∀ value,
          value ∈ distinct (values part) ++ seen ↔ value ∈ values part ++ seen := by
        intro value
        simp [distinct, mem_distinctFrom]
      rw [List.flatMap_cons, List.flatMap_cons, distinctFrom_append, distinctFrom_append, ih,
        distinctFrom_congr same, distinct, distinctFrom_distinctFrom (List.nil_subset seen)]

end Distinct

/-! ## Joins -/

/-- A name occurs in a list of types. -/
def Occurs (types : Descriptors) (name : String) : Prop :=
  ∃ way, nameAt? (.union types) way = some name

/-- There is a way to a name that stands before all ways to another one. -/
def OccursBefore (types : Descriptors) (first second : String) : Prop :=
  ∃ way, nameAt? (.union types) way = some first ∧
    ∀ later, nameAt? (.union types) later = some second → List.Lex (· < ·) way later

/-- The names that occur in a list of types, in order of first occurrence. -/
structure Lists (types : Descriptors) (names : List String) : Prop where
  mem_iff : ∀ name, name ∈ names ↔ Occurs types name
  ordered : names.Pairwise (OccursBefore types)

variable {types : Descriptors} {names : List String}

theorem OccursBefore.asymm {first second : String} (before : OccursBefore types first second) :
    ¬ OccursBefore types second first := by
  intro after
  obtain ⟨way, isFirst, beforeSecond⟩ := before
  obtain ⟨later, isSecond, beforeFirst⟩ := after
  exact Std.Asymm.asymm _ _ (beforeSecond later isSecond) (beforeFirst way isFirst)

namespace Lists

theorem nodup (lists : Lists types names) : names.Nodup := by
  apply lists.ordered.imp
  rintro first second before rfl
  exact before.asymm before

theorem unique {other : List String} (lists : Lists types names) (listsOther : Lists types other) :
    names = other := by
  apply List.Perm.eq_of_pairwise _ lists.ordered listsOther.ordered
  · rw [List.perm_ext_iff_of_nodup lists.nodup listsOther.nodup]
    intro name
    rw [lists.mem_iff, listsOther.mem_iff]
  · intro first second _ _ before after
    exact absurd after before.asymm

end Lists

theorem mem_memberNames_iff (types : Descriptors) (name : String) :
    name ∈ Descriptors.memberNames types ↔ Occurs types name := by
  rw [← Descriptor.memberNames, ← Descriptor.map_name_mentions, List.mem_map]
  constructor
  · rintro ⟨mention, mentioned, rfl⟩
    exact ⟨mention.way, Descriptor.mem_mentions.mp mentioned⟩
  · rintro ⟨way, found⟩
    exact ⟨⟨way, name⟩, Descriptor.mem_mentions.mpr found, rfl⟩

theorem occursBefore_of_firstBefore {first second : String}
    (before : FirstBefore (Descriptors.memberNames types) first second) :
    OccursBefore types first second := by
  obtain ⟨front, back, isNames, isNew, differs⟩ := before
  rw [← Descriptor.memberNames, ← Descriptor.map_name_mentions] at isNames
  obtain ⟨earlier, rest, isMentions, rfl, isRest⟩ := List.map_eq_append_iff.mp isNames
  obtain ⟨mention, later, rfl, rfl, rfl⟩ := List.map_eq_cons_iff.mp isRest
  have leftToRight := Descriptor.mentions_leftToRight (.union types)
  rw [isMentions, List.pairwise_append, List.pairwise_cons] at leftToRight
  refine ⟨mention.way, ?_, ?_⟩
  · apply Descriptor.mem_mentions.mp
    rw [isMentions]
    exact List.mem_append_right _ List.mem_cons_self
  · intro way found
    have mentioned : ⟨way, second⟩ ∈ (Descriptor.union types).mentions :=
      Descriptor.mem_mentions.mpr found
    -- The other name is mentioned neither before the first mention nor there.
    rw [isMentions, List.mem_append, List.mem_cons] at mentioned
    rcases mentioned with inFront | rfl | behind
    · exact absurd (List.mem_map_of_mem inFront) isNew
    · exact absurd rfl differs
    · exact leftToRight.2.1.1 _ behind

theorem lists_distinct (types : Descriptors) :
    Lists types (distinct (Descriptors.memberNames types)) where
  mem_iff name := by
    rw [← mem_memberNames_iff, distinct, mem_distinctFrom]
    simp
  ordered := (distinctFrom_ordered [] _).imp occursBefore_of_firstBefore

namespace Descriptor

theorem ofNames?_eq_none_iff : ofNames? names = none ↔ names = [] := by
  cases names with
  | nil => simp [ofNames?]
  | cons first rest => cases rest <;> simp [ofNames?]

theorem ofNames?_eq_named_iff {name : String} :
    ofNames? names = some (.named name) ↔ names = [name] := by
  cases names with
  | nil => simp [ofNames?]
  | cons first rest => cases rest <;> simp [ofNames?]

theorem ofNames?_eq_union_iff {members : Descriptors} :
    ofNames? names = some (.union members) ↔
      2 ≤ names.length ∧ members = names.map .named := by
  cases names with
  | nil => simp [ofNames?]
  | cons first rest => cases rest <;> simp [ofNames?, eq_comm]

theorem memberNames_ofNames? (names : List String) :
    (ofNames? names).toList.flatMap memberNames = names := by
  cases names with
  | nil => rfl
  | cons first rest =>
      cases rest with
      | nil => simp [ofNames?, memberNames]
      | cons second rest =>
          have isUnion : ofNames? (first :: second :: rest) =
              some (.union ((first :: second :: rest).map .named)) := rfl
          rw [isUnion, Option.toList_some, List.flatMap_singleton, memberNames,
            memberNames_map_named]

/-- Joining parts first and then the results is joining everything at once. -/
theorem join_flatten (parts : List Descriptors) :
    join (parts.filterMap join) = join parts.flatten := by
  have names : Descriptors.memberNames (parts.filterMap join) =
      parts.flatMap fun part => distinct (Descriptors.memberNames part) := by
    rw [Descriptors.memberNames_eq, List.filterMap_eq_flatMap_toList, List.flatMap_assoc]
    apply List.flatMap_congr
    intro part _
    exact memberNames_ofNames? _
  have namesTogether : Descriptors.memberNames parts.flatten =
      parts.flatMap Descriptors.memberNames := by
    rw [Descriptors.memberNames_eq, List.flatten_eq_flatMap, List.flatMap_assoc]
    apply List.flatMap_congr
    intro part _
    exact (Descriptors.memberNames_eq part).symm
  rw [join, join, names, namesTogether, distinct, distinctFrom_flatMap]
  rfl

/-- A join is absent if no name occurs, a named type if one does, and otherwise the union of
the names in order of first occurrence.  How the types are grouped does not matter, and what
has been joined is its own join. -/
theorem join_normal (types : Descriptors) :
    (join types = none ↔ ∀ name, ¬ Occurs types name) ∧
    (∀ name, join types = some (.named name) ↔ ∀ other, Occurs types other ↔ other = name) ∧
    (∀ members, join types = some (.union members) ↔
      ∃ names, Lists types names ∧ names.Nodup ∧ 2 ≤ names.length ∧
        members = names.map .named) ∧
    (∀ parts : List Descriptors, join (parts.filterMap join) = join parts.flatten) ∧
    join (join types).toList = join types := by
  have lists := lists_distinct types
  refine ⟨?_, ?_, ?_, join_flatten, ?_⟩
  · rw [join, ofNames?_eq_none_iff, List.eq_nil_iff_forall_not_mem]
    simp only [lists.mem_iff]
  · intro name
    rw [join, ofNames?_eq_named_iff]
    constructor
    · intro isOnly other
      rw [← lists.mem_iff, isOnly, List.mem_singleton]
    · intro isOnly
      refine lists.unique ⟨?_, List.pairwise_singleton _ _⟩
      intro other
      rw [List.mem_singleton, isOnly]
  · intro members
    rw [join, ofNames?_eq_union_iff]
    constructor
    · rintro ⟨several, isUnion⟩
      exact ⟨_, lists, lists.nodup, several, isUnion⟩
    · rintro ⟨names, listed, _, several, rfl⟩
      rw [lists.unique listed]
      exact ⟨several, rfl⟩
  · have single := join_flatten [types]
    rw [List.flatten_singleton, List.filterMap_eq_flatMap_toList, List.flatMap_singleton] at single
    exact single

/-- Nested unions, an empty one, and names that occur twice. -/
example :
    (join [.union [.named "int", .union []], .named "str", .union [.named "int"]]).map text =
      some "int | str" := by
  decide

end Descriptor

end TypeTrace.Types
