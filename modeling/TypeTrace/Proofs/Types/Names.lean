import TypeTrace.Proofs.Types.Descriptor

/-!
# Names that a text can hold

A name that may stand in the text of a type is trimmed, closes every bracket it opens with
its partner, and has bars only between brackets.  Such a name is its own only member, also in
the text of a union.  What stands between brackets need only be nested: bars in it are at a
depth above zero.

A type is flat if it is such a name or a union of several different ones.  Joining flat types
gives flat types.
-/

namespace TypeTrace.Types

/-! ## Nested brackets -/

/-- Opening brackets with their partners. -/
def brackets : List (Char × Char) := [('[', ']'), ('(', ')'), ('\x7b', '\x7d')]

/-- Texts in which every bracket has its partner and pairs do not cross. -/
inductive Nested : List Char → Prop where
  | nil : Nested []
  | plain {character : Char} {rest : List Char} (plain : character ∉ bracketCharacters)
      (nested : Nested rest) : Nested (character :: rest)
  | pair {opening closing : Char} {inner rest : List Char}
      (partners : (opening, closing) ∈ brackets) (inside : Nested inner)
      (nested : Nested rest) : Nested (opening :: (inner ++ closing :: rest))

theorem depthAfter_opening {opening closing : Char}
    (partners : (opening, closing) ∈ brackets) (depth : Nat) :
    depthAfter depth opening = depth + 1 := by
  simp only [brackets, List.mem_cons, Prod.mk.injEq, List.not_mem_nil, or_false] at partners
  rcases partners with ⟨rfl, _⟩ | ⟨rfl, _⟩ | ⟨rfl, _⟩ <;> rfl

theorem depthAfter_closing {opening closing : Char}
    (partners : (opening, closing) ∈ brackets) (depth : Nat) :
    depthAfter (depth + 1) closing = depth := by
  simp only [brackets, List.mem_cons, Prod.mk.injEq, List.not_mem_nil, or_false] at partners
  rcases partners with ⟨_, rfl⟩ | ⟨_, rfl⟩ | ⟨_, rfl⟩ <;> rfl

namespace Nested

variable {text left right : List Char}

theorem of_plain (plain : ∀ character ∈ text, character ∉ bracketCharacters) :
    Nested text := by
  induction text with
  | nil => exact .nil
  | cons character rest ih =>
      rw [List.forall_mem_cons] at plain
      exact .plain plain.1 (ih plain.2)

theorem append (first : Nested left) (second : Nested right) : Nested (left ++ right) := by
  induction first with
  | nil => exact second
  | plain plain _ ih => exact .plain plain ih
  | pair partners inside _ _ ih =>
      rw [List.cons_append, List.append_assoc, List.cons_append]
      exact .pair partners inside ih

theorem intercalate {separator : List Char} {texts : List (List Char)}
    (between : Nested separator) (nested : ∀ text ∈ texts, Nested text) :
    Nested (separator.intercalate texts) := by
  induction texts with
  | nil => exact .nil
  | cons text rest ih =>
      rw [List.forall_mem_cons] at nested
      cases rest with
      | nil => simpa using nested.1
      | cons next rest =>
          rw [List.intercalate_cons_cons]
          exact (nested.1.append between).append (ih nested.2)

theorem of_separator : Nested separator :=
  .plain (by decide) (.plain (by decide) (.plain (by decide) .nil))

/-- Behind a nested text the depth is what it was in front of it. -/
theorem depthBehind_eq (nested : Nested text) (depth : Nat) : depthBehind depth text = depth := by
  induction nested generalizing depth with
  | nil => rfl
  | plain plain _ ih => rw [depthBehind_cons, depthAfter_of_not_mem plain, ih]
  | pair partners _ _ insideIh ih =>
      rw [depthBehind_cons, depthAfter_opening partners, depthBehind_append, insideIh,
        depthBehind_cons, depthAfter_closing partners, ih]

/-- Between brackets a nested text has no bar at depth zero. -/
theorem seamless_inside (nested : Nested text) (depth : Nat) : Seamless (depth + 1) text := by
  induction nested generalizing depth with
  | nil => exact seamless_nil _
  | plain plain _ ih =>
      rw [seamless_cons, depthAfter_of_not_mem plain]
      exact ⟨fun isCut => Nat.succ_ne_zero depth isCut.2, ih depth⟩
  | pair partners inside _ insideIh ih =>
      rw [seamless_cons, depthAfter_opening partners, seamless_append,
        inside.depthBehind_eq, seamless_cons, depthAfter_closing partners]
      exact ⟨fun isCut => Nat.succ_ne_zero depth isCut.2, insideIh (depth + 1),
        fun isCut => Nat.succ_ne_zero (depth + 1) isCut.2, ih depth⟩

end Nested

/-! ## Names -/

/-- A name that may stand in the text of a type. -/
structure IsName (name : String) : Prop where
  ne_empty : name ≠ ""
  trimmed_eq : Text.trimmed name = name
  nested : Nested name.toList
  /-- Bars stand between brackets only. -/
  seamless : Seamless 0 name.toList

theorem IsName.isMember {name : String} (isName : IsName name) : IsMember name.toList where
  ne_nil := by
    intro isNil
    exact isName.ne_empty (String.toList_eq_nil_iff.mp isNil)
  trim_eq := by
    have isTrimmed := congrArg String.toList isName.trimmed_eq
    rwa [Text.trimmed, String.toList_ofList] at isTrimmed
  seamless := isName.seamless

theorem IsName.closed {name : String} (isName : IsName name) : Closed name.toList :=
  isName.nested.depthBehind_eq 0

/-- An identifier: no brackets, bars or blank characters. -/
def IsIdentifier (name : String) : Prop :=
  name ≠ "" ∧ ∀ character ∈ name.toList,
    Text.isBlank character = false ∧ character ≠ '|' ∧ character ∉ bracketCharacters

instance (name : String) : Decidable (IsIdentifier name) :=
  @instDecidableAnd _ _ inferInstance (List.decidableBAll _ _)

theorem trimmed_of_tight {name : String} (tight : Text.Tight name.toList) :
    Text.trimmed name = name := by
  rw [Text.trimmed, tight.trim_eq, String.ofList_toList]

namespace IsIdentifier

variable {name whole : String} {inner : List Char}

theorem nested (identifier : IsIdentifier name) : Nested name.toList :=
  .of_plain fun character member => (identifier.2 character member).2.2

theorem seamless (identifier : IsIdentifier name) : Seamless 0 name.toList := by
  apply seamless_of_not_mem
  intro isBar
  exact (identifier.2 '|' isBar).2.1 rfl

theorem isName (identifier : IsIdentifier name) : IsName name where
  ne_empty := identifier.1
  trimmed_eq := by
    apply trimmed_of_tight
    constructor
    · intro character isFirst
      exact (identifier.2 character (List.mem_of_mem_head? isFirst)).1
    · intro character isLast
      exact (identifier.2 character (List.mem_of_mem_getLast? isLast)).1
  nested := identifier.nested
  seamless := identifier.seamless

/-- An identifier with something nested in brackets behind it is a name. -/
theorem isName_of_brackets (identifier : IsIdentifier name) (nested : Nested inner)
    (isWhole : whole.toList = name.toList ++ '[' :: (inner ++ [']'])) : IsName whole where
  ne_empty := by
    rintro rfl
    simp at isWhole
  trimmed_eq := by
    apply trimmed_of_tight
    rw [isWhole]
    constructor
    · intro character isFirst
      cases isText : name.toList with
      | nil => exact absurd (String.toList_eq_nil_iff.mp isText) identifier.1
      | cons first rest =>
          rw [isText] at isFirst
          cases isFirst
          exact (identifier.2 character (by rw [isText]; exact List.mem_cons_self)).1
    · intro character isLast
      rw [← List.cons_append, ← List.append_assoc, List.getLast?_concat] at isLast
      cases isLast
      rfl
  nested := by
    rw [isWhole]
    exact identifier.nested.append (.pair (by decide) nested .nil)
  seamless := by
    rw [isWhole, seamless_append, identifier.nested.depthBehind_eq, seamless_cons,
      seamless_append]
    refine ⟨identifier.seamless, by decide, nested.seamless_inside 0, ?_⟩
    exact seamless_of_not_mem (by decide) _

end IsIdentifier

/-! ## Flat types -/

/-- A name, or a union of several names that are all different. -/
inductive Flat : Descriptor → Prop where
  | named {name : String} (isName : IsName name) : Flat (.named name)
  | union {names : List String} (several : 2 ≤ names.length) (different : names.Nodup)
      (areNames : ∀ name ∈ names, IsName name) : Flat (.union (names.map .named))

theorem memberNames_map_named (names : List String) :
    Descriptors.memberNames (names.map .named) = names := by
  rw [Descriptors.memberNames_eq, List.flatMap_map]
  simp only [Descriptor.memberNames]
  exact List.flatMap_singleton' names

namespace Flat

variable {type : Descriptor}

theorem isName_of_mem (flat : Flat type) : ∀ name ∈ type.memberNames, IsName name := by
  cases flat with
  | named isName =>
      rw [Descriptor.memberNames, List.forall_mem_singleton]
      exact isName
  | union _ _ areNames =>
      rw [Descriptor.memberNames, memberNames_map_named]
      exact areNames

theorem nested_text (flat : Flat type) : Nested type.text.toList := by
  cases flat with
  | named isName =>
      rw [Descriptor.text]
      exact isName.nested
  | union _ _ areNames =>
      rw [Descriptor.toList_text_union]
      apply Nested.of_separator.intercalate
      intro shown member
      rw [List.map_map, List.mem_map] at member
      obtain ⟨name, isMember, rfl⟩ := member
      rw [Function.comp_apply, Descriptor.text]
      exact (areNames name isMember).nested

/-- A limit that admits one member cuts nothing off the names of a flat type. -/
theorem labels_eq (flat : Flat type) {limit : Option Nat} (admits : limit ≠ some 0) :
    type.labels limit = type.memberNames := by
  have whole : ∀ name ∈ type.memberNames, unionMembers name limit = [name] := by
    intro name isMember
    have isOnly := (flat.isName_of_mem name isMember).isMember.members_eq
    have isCapped : unionMembers name limit = capped limit [name] :=
      unionMembers_eq_of_members isOnly limit
    rw [isCapped]
    cases limit with
    | none => rfl
    | some count =>
        have positive : 1 ≤ count := by
          apply Nat.one_le_iff_ne_zero.mpr
          intro isZero
          exact admits (congrArg some isZero)
        exact List.take_of_length_le positive
  rw [Descriptor.labels, List.flatMap_congr whole, List.flatMap_singleton']

theorem unionMembers_text (flat : Flat type) :
    unionMembers type.text none = type.memberNames := by
  have closed : ∀ name ∈ type.memberNames, Closed name.toList := by
    intro name isMember
    exact (flat.isName_of_mem name isMember).closed
  refine unionMembers_eq_of_members ?_ none
  rw [Descriptor.members_text closed, List.map_eq_flatMap]
  apply List.flatMap_congr
  intro name isMember
  exact (flat.isName_of_mem name isMember).isMember.members_eq

end Flat

/-! ## Joined types -/

theorem mem_distinctFrom {α : Type} [DecidableEq α] {seen values : List α} {value : α} :
    value ∈ distinctFrom seen values ↔ value ∈ values ∧ value ∉ seen := by
  induction values generalizing seen with
  | nil => simp [distinctFrom]
  | cons head rest ih =>
      by_cases known : head ∈ seen
      · rw [distinctFrom, if_pos known, ih, List.mem_cons]
        constructor
        · intro ⟨later, isNew⟩
          exact ⟨.inr later, isNew⟩
        · rintro ⟨rfl | later, isNew⟩
          · exact absurd known isNew
          · exact ⟨later, isNew⟩
      · rw [distinctFrom, if_neg known, List.mem_cons, ih, List.mem_cons, List.mem_cons]
        by_cases isHead : value = head
        · simp [isHead, known]
        · simp [isHead]

theorem nodup_distinctFrom {α : Type} [DecidableEq α] (seen values : List α) :
    (distinctFrom seen values).Nodup := by
  induction values generalizing seen with
  | nil => simp [distinctFrom]
  | cons head rest ih =>
      by_cases known : head ∈ seen
      · rw [distinctFrom, if_pos known]
        exact ih seen
      · rw [distinctFrom, if_neg known, List.nodup_cons, mem_distinctFrom]
        exact ⟨fun later => later.2 List.mem_cons_self, ih (head :: seen)⟩

theorem flat_of_ofNames? {names : List String} {type : Descriptor} (different : names.Nodup)
    (areNames : ∀ name ∈ names, IsName name) (isType : Descriptor.ofNames? names = some type) :
    Flat type := by
  cases names with
  | nil => cases isType
  | cons first rest =>
      cases rest with
      | nil =>
          cases isType
          exact .named (areNames first List.mem_cons_self)
      | cons second rest =>
          cases isType
          exact .union (by simp) different areNames

theorem flat_of_join {types : Descriptors} {type : Descriptor}
    (flat : ∀ part ∈ types, Flat part) (joined : Descriptor.join types = some type) :
    Flat type := by
  refine flat_of_ofNames? (nodup_distinctFrom [] _) ?_ joined
  intro name member
  have isMember := (mem_distinctFrom.mp member).1
  rw [Descriptors.memberNames_eq, List.mem_flatMap] at isMember
  obtain ⟨part, isPart, isName⟩ := isMember
  exact (flat part isPart).isName_of_mem name isName

end TypeTrace.Types
