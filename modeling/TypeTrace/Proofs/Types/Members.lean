import Mathlib.Data.List.Basic
import TypeTrace.Proofs.Text.Blank
import TypeTrace.Types.Members

/-!
# Members are a normal form

A text is cut at its bars at depth zero.  Depth starts anew behind each of them, so a cut
piece has no such bar itself, and all pieces but the last leave no bracket open
(`cutInduction`).  Only the last one may: an open bracket hides every bar behind it.

Members are trimmed pieces.  Blank characters neither open nor close anything, so members
keep these properties, and members that are joined by bars are cut apart again where they
were joined (`members_intercalate`).
-/

namespace TypeTrace.Types

open Text

/-! ## Depth -/

/-- Bracket depth behind a text, told from the depth in front of it. -/
def depthBehind (depth : Nat) (text : List Char) : Nat :=
  text.foldl depthAfter depth

@[simp] theorem depthBehind_nil (depth : Nat) : depthBehind depth [] = depth := rfl

@[simp] theorem depthBehind_cons (depth : Nat) (character : Char) (rest : List Char) :
    depthBehind depth (character :: rest) =
      depthBehind (depthAfter depth character) rest := rfl

@[simp] theorem depthBehind_append (depth : Nat) (left right : List Char) :
    depthBehind depth (left ++ right) = depthBehind (depthBehind depth left) right :=
  List.foldl_append

/-- The characters that change the depth. -/
def bracketCharacters : List Char := ['[', '(', '\x7b', ']', ')', '\x7d']

theorem depthAfter_of_not_mem {character : Char} (plain : character ∉ bracketCharacters)
    (depth : Nat) : depthAfter depth character = depth := by
  simp only [bracketCharacters, List.mem_cons, List.not_mem_nil, or_false, not_or] at plain
  simp [depthAfter, plain]

@[simp] theorem depthAfter_bar (depth : Nat) : depthAfter depth '|' = depth :=
  depthAfter_of_not_mem (by decide) depth

theorem not_isBlank_of_mem {character : Char} (isBracket : character ∈ bracketCharacters) :
    isBlank character = false := by
  simp only [bracketCharacters, List.mem_cons, List.not_mem_nil, or_false] at isBracket
  rcases isBracket with rfl | rfl | rfl | rfl | rfl | rfl <;> rfl

theorem depthAfter_of_blank {character : Char} (isSpace : isBlank character = true)
    (depth : Nat) : depthAfter depth character = depth := by
  apply depthAfter_of_not_mem
  intro isBracket
  cases isSpace.symm.trans (not_isBlank_of_mem isBracket)

theorem depthBehind_of_blanks {text : List Char}
    (blank : ∀ character ∈ text, isBlank character = true) (depth : Nat) :
    depthBehind depth text = depth := by
  induction text with
  | nil => rfl
  | cons character rest ih =>
      rw [List.forall_mem_cons] at blank
      rw [depthBehind_cons, depthAfter_of_blank blank.1, ih blank.2]

/-- A text that leaves no bracket open.  It may close brackets that were never opened. -/
def Closed (text : List Char) : Prop := depthBehind 0 text = 0

instance (text : List Char) : Decidable (Closed text) :=
  inferInstanceAs (Decidable (_ = _))

/-! ## Texts without seams -/

/-- A text without a bar at depth zero, told from the depth in front of it. -/
def Seamless (depth : Nat) (text : List Char) : Prop :=
  ∀ before after, text = before ++ '|' :: after → depthBehind depth before ≠ 0

variable {depth : Nat} {text left right : List Char}

theorem seamless_nil (depth : Nat) : Seamless depth [] := by
  intro before after isNil
  simp at isNil

theorem seamless_cons {character : Char} {rest : List Char} :
    Seamless depth (character :: rest) ↔
      ¬ (character = '|' ∧ depth = 0) ∧ Seamless (depthAfter depth character) rest := by
  constructor
  · intro seamless
    constructor
    · intro ⟨isBar, isZero⟩
      exact seamless [] rest (by rw [isBar, List.nil_append]) isZero
    · intro before after isRest
      exact seamless (character :: before) after (by rw [isRest, List.cons_append])
  · intro ⟨noBar, seamless⟩ before after isText
    rcases List.cons_eq_append_iff.mp isText with ⟨rfl, isBar⟩ | ⟨further, rfl, isRest⟩
    · intro isZero
      exact noBar ⟨(List.cons.inj isBar).1.symm, isZero⟩
    · exact seamless further after isRest

theorem seamless_append :
    Seamless depth (left ++ right) ↔
      Seamless depth left ∧ Seamless (depthBehind depth left) right := by
  induction left generalizing depth with
  | nil => simp [seamless_nil]
  | cons character rest ih =>
      rw [List.cons_append, seamless_cons, seamless_cons, ih, and_assoc, depthBehind_cons]

theorem seamless_of_not_mem (noBar : '|' ∉ text) (depth : Nat) : Seamless depth text := by
  intro before after isText
  simp [isText] at noBar

/-! ## Cutting -/

/-- A text without a seam goes in front of the first piece of what follows. -/
theorem pieces_append (seamless : Seamless depth left) (right : List Char) :
    pieces depth (left ++ right) =
      (pieces (depthBehind depth left) right).modifyHead (left ++ ·) := by
  induction left generalizing depth with
  | nil => cases h : pieces depth right <;> simp [h]
  | cons character rest ih =>
      rw [seamless_cons] at seamless
      rw [List.cons_append, pieces, if_neg seamless.1, ih seamless.2,
        List.modifyHead_modifyHead]
      rfl

theorem pieces_of_seamless (seamless : Seamless depth text) : pieces depth text = [text] := by
  have whole := pieces_append seamless []
  rw [List.append_nil] at whole
  simpa [pieces] using whole

/-- A text is cut behind what comes first if that has no seam and leaves nothing open. -/
theorem pieces_append_bar (seamless : Seamless 0 left) (closed : Closed left)
    (right : List Char) : pieces 0 (left ++ '|' :: right) = left :: pieces 0 right := by
  rw [pieces_append seamless, show depthBehind 0 left = 0 from closed, pieces, if_pos ⟨rfl, rfl⟩]
  simp

theorem seamless_or_bar (depth : Nat) (text : List Char) :
    Seamless depth text ∨ ∃ before after, text = before ++ '|' :: after ∧
      Seamless depth before ∧ depthBehind depth before = 0 := by
  induction text generalizing depth with
  | nil => exact .inl (seamless_nil depth)
  | cons character rest ih =>
      by_cases isCut : character = '|' ∧ depth = 0
      · exact .inr ⟨[], rest, by simp [isCut.1], seamless_nil depth, isCut.2⟩
      · rcases ih (depthAfter depth character) with seamless | ⟨before, after, rfl, first⟩
        · exact .inl (seamless_cons.mpr ⟨isCut, seamless⟩)
        · exact .inr ⟨character :: before, after, rfl, seamless_cons.mpr ⟨isCut, first.1⟩,
            first.2⟩

/-- Induction along the bars at depth zero. -/
@[elab_as_elim]
theorem cutInduction {motive : List Char → Prop}
    (whole : ∀ text, Seamless 0 text → motive text)
    (bar : ∀ before after, Seamless 0 before → Closed before → motive after →
      motive (before ++ '|' :: after))
    (text : List Char) : motive text := by
  rcases seamless_or_bar 0 text with seamless | ⟨before, after, isText, seamless, closed⟩
  · exact whole text seamless
  · rw [isText]
    exact bar before after seamless closed (cutInduction whole bar after)
termination_by text.length
decreasing_by
  rw [isText, List.length_append, List.length_cons]
  omega

theorem pieces_ne_nil (text : List Char) : pieces 0 text ≠ [] := by
  induction text using cutInduction with
  | whole text seamless => simp [pieces_of_seamless seamless]
  | bar before after seamless closed => simp [pieces_append_bar seamless closed]

theorem seamless_of_mem_pieces (text : List Char) : ∀ piece ∈ pieces 0 text, Seamless 0 piece := by
  induction text using cutInduction with
  | whole text seamless => simpa [pieces_of_seamless seamless] using seamless
  | bar before after seamless closed ih =>
      rw [pieces_append_bar seamless closed, List.forall_mem_cons]
      exact ⟨seamless, ih⟩

/-- All pieces but the last leave nothing open. -/
theorem closed_of_mem_dropLast (text : List Char) :
    ∀ piece ∈ (pieces 0 text).dropLast, Closed piece := by
  induction text using cutInduction with
  | whole text seamless => simp [pieces_of_seamless seamless]
  | bar before after seamless closed ih =>
      rw [pieces_append_bar seamless closed,
        List.dropLast_cons_of_ne_nil (pieces_ne_nil after), List.forall_mem_cons]
      exact ⟨closed, ih⟩

theorem closed_append_bar (closed : Closed left) :
    Closed (left ++ '|' :: right) ↔ Closed right := by
  unfold Closed at closed ⊢
  rw [depthBehind_append, closed, depthBehind_cons, depthAfter_bar]

/-- A text with a bar at depth zero can be cut at its last one. -/
theorem exists_last_bar (seam : ¬ Seamless 0 text) :
    ∃ before after, text = before ++ '|' :: after ∧ Closed before ∧ Seamless 0 after := by
  induction text using cutInduction with
  | whole text seamless => exact absurd seamless seam
  | bar before after _ closed ih =>
      by_cases seamless : Seamless 0 after
      · exact ⟨before, after, rfl, closed, seamless⟩
      · obtain ⟨further, last, rfl, closedFurther, seamless⟩ := ih seamless
        refine ⟨before ++ '|' :: further, last, ?_, ?_, seamless⟩
        · rw [List.append_assoc, List.cons_append]
        · exact (closed_append_bar closed).mpr closedFurther

theorem pieces_append_closed (closed : Closed left) (right : List Char) :
    pieces 0 (left ++ '|' :: right) = pieces 0 left ++ pieces 0 right := by
  induction left using cutInduction with
  | whole left seamless =>
      rw [pieces_append_bar seamless closed, pieces_of_seamless seamless, List.singleton_append]
  | bar before after seamless closedBefore ih =>
      rw [List.append_assoc, List.cons_append, pieces_append_bar seamless closedBefore,
        pieces_append_bar seamless closedBefore, ih ((closed_append_bar closedBefore).mp closed),
        List.cons_append]

/-! ## The pieces of a text -/

/-- Parts that are joined by bars to one text before a bar and one text behind it. -/
def JoinedAt (parts : List (List Char)) (before after : List Char) : Prop :=
  ∃ front back, front ≠ [] ∧ back ≠ [] ∧ parts = front ++ back ∧
    before = ['|'].intercalate front ∧ after = ['|'].intercalate back

/-- The pieces of a text between its bars at depth zero.  Joined by bars they are the text,
and the places where they are joined are the bars at depth zero. -/
structure IsCut (text : List Char) (parts : List (List Char)) : Prop where
  ne_nil : parts ≠ []
  joined : ['|'].intercalate parts = text
  seams : ∀ before after,
    text = before ++ '|' :: after ∧ depthBehind 0 before = 0 ↔ JoinedAt parts before after

variable {before after : List Char} {parts rest : List (List Char)}

theorem intercalate_cons {part : List Char} (more : rest ≠ []) :
    ['|'].intercalate (part :: rest) = part ++ '|' :: ['|'].intercalate rest := by
  rw [List.intercalate_cons_of_ne_nil more, List.append_assoc, List.singleton_append]

/-- Where a text is cut behind a piece, the other bars at depth zero are those of the rest. -/
theorem eq_append_bar_iff {front back : List Char} (seamless : Seamless 0 before)
    (closed : Closed before) :
    before ++ '|' :: after = front ++ '|' :: back ∧ depthBehind 0 front = 0 ↔
      (front = before ∧ back = after) ∨
      ∃ further, front = before ++ '|' :: further ∧
        after = further ++ '|' :: back ∧ depthBehind 0 further = 0 := by
  constructor
  · intro ⟨same, isZero⟩
    rcases List.append_eq_append_iff.mp same with ⟨between, rfl, isRest⟩ | ⟨between, rfl, isRest⟩
    · rcases List.cons_eq_append_iff.mp isRest with ⟨rfl, isBar⟩ | ⟨further, rfl, isAfter⟩
      · exact .inl ⟨List.append_nil before, (List.cons.inj isBar).2⟩
      · exact .inr ⟨further, rfl, isAfter, (closed_append_bar closed).mp isZero⟩
    · rcases List.cons_eq_append_iff.mp isRest with ⟨rfl, isBar⟩ | ⟨further, rfl, isAfter⟩
      · exact .inl ⟨(List.append_nil front).symm, (List.cons.inj isBar).2.symm⟩
      · exact absurd isZero (seamless front further rfl)
  · rintro (⟨rfl, rfl⟩ | ⟨further, rfl, rfl, isZero⟩)
    · exact ⟨rfl, closed⟩
    · refine ⟨by rw [List.append_assoc, List.cons_append], ?_⟩
      exact (closed_append_bar closed).mpr isZero

theorem joinedAt_cons {part front back : List Char} (more : rest ≠ []) :
    JoinedAt (part :: rest) front back ↔
      (front = part ∧ back = ['|'].intercalate rest) ∨
      ∃ further, front = part ++ '|' :: further ∧ JoinedAt rest further back := by
  constructor
  · intro ⟨first, second, someFirst, someSecond, isParts, isFront, isBack⟩
    rcases List.cons_eq_append_iff.mp isParts with ⟨rfl, _⟩ | ⟨others, rfl, rfl⟩
    · exact absurd rfl someFirst
    · cases others with
      | nil => exact .inl ⟨isFront.trans List.intercalate_singleton, isBack⟩
      | cons next others =>
          refine .inr ⟨['|'].intercalate (next :: others), ?_, ?_⟩
          · rw [isFront, intercalate_cons (List.cons_ne_nil next others)]
          · exact ⟨next :: others, second, List.cons_ne_nil next others, someSecond, rfl, rfl,
              isBack⟩
  · rintro (⟨rfl, rfl⟩ | ⟨_, rfl, first, second, someFirst, someSecond, rfl, rfl, rfl⟩)
    · exact ⟨[front], rest, List.cons_ne_nil front [], more, rfl,
        List.intercalate_singleton.symm, rfl⟩
    · exact ⟨part :: first, second, List.cons_ne_nil part first, someSecond, rfl,
        (intercalate_cons someFirst).symm, rfl⟩

theorem not_joinedAt_singleton {part front back : List Char} :
    ¬ JoinedAt [part] front back := by
  intro ⟨first, second, someFirst, someSecond, isParts, _⟩
  rcases List.cons_eq_append_iff.mp isParts with ⟨isNil, _⟩ | ⟨others, _, isNil⟩
  · exact someFirst isNil
  · exact someSecond (List.append_eq_nil_iff.mp isNil.symm).2

theorem isCut_of_seamless (seamless : Seamless 0 text) :
    IsCut text parts ↔ parts = [text] := by
  constructor
  · intro cut
    cases parts with
    | nil => exact absurd rfl cut.ne_nil
    | cons part rest =>
        by_cases more : rest = []
        · rw [more, ← cut.joined, more, List.intercalate_singleton]
        · -- The first part would end at a bar at depth zero.
          have first : JoinedAt (part :: rest) part (['|'].intercalate rest) :=
            (joinedAt_cons more).mpr (.inl ⟨rfl, rfl⟩)
          have seam := (cut.seams _ _).mpr first
          exact absurd seam.2 (seamless _ _ seam.1)
  · rintro rfl
    refine ⟨List.cons_ne_nil text [], List.intercalate_singleton, ?_⟩
    intro before after
    constructor
    · intro ⟨isText, isZero⟩
      exact absurd isZero (seamless before after isText)
    · intro joinedAt
      exact absurd joinedAt not_joinedAt_singleton

theorem isCut_append_bar (seamless : Seamless 0 before) (closed : Closed before) :
    IsCut (before ++ '|' :: after) parts ↔
      ∃ rest, parts = before :: rest ∧ IsCut after rest := by
  constructor
  · intro cut
    cases parts with
    | nil => exact absurd rfl cut.ne_nil
    | cons part rest =>
        have isSeam := (cut.seams before after).mp ⟨rfl, closed⟩
        have more : rest ≠ [] := by
          rintro rfl
          exact not_joinedAt_singleton isSeam
        have isPart : part = before := by
          rcases (joinedAt_cons more).mp isSeam with ⟨isBefore, _⟩ | ⟨further, isBefore, _⟩
          · exact isBefore.symm
          · -- The first part ends at a bar at depth zero, and there is none before this one.
            have first : JoinedAt (part :: rest) part (['|'].intercalate rest) :=
              (joinedAt_cons more).mpr (.inl ⟨rfl, rfl⟩)
            exact absurd ((cut.seams _ _).mpr first).2 (seamless part further isBefore)
        subst isPart
        refine ⟨rest, rfl, more, ?_, ?_⟩
        · have isJoined := cut.joined
          rw [intercalate_cons more] at isJoined
          exact (List.cons.inj (List.append_cancel_left isJoined)).2
        · intro front back
          have seam := cut.seams (part ++ '|' :: front) back
          rw [eq_append_bar_iff seamless closed, joinedAt_cons more] at seam
          simpa using seam
  · rintro ⟨rest, rfl, cut⟩
    refine ⟨List.cons_ne_nil before rest, ?_, ?_⟩
    · rw [intercalate_cons cut.ne_nil, cut.joined]
    · intro front back
      rw [eq_append_bar_iff seamless closed, joinedAt_cons cut.ne_nil, cut.joined]
      simp only [cut.seams]

/-- What a text is cut into are its pieces between the bars at depth zero. -/
theorem isCut_iff : IsCut text parts ↔ parts = pieces 0 text := by
  induction text using cutInduction generalizing parts with
  | whole text seamless => rw [isCut_of_seamless seamless, pieces_of_seamless seamless]
  | bar before after seamless closed ih =>
      rw [isCut_append_bar seamless closed, pieces_append_bar seamless closed]
      simp only [ih, exists_eq_right]

/-! ## Members -/

/-- What a member looks like. -/
structure IsMember (text : List Char) : Prop where
  ne_nil : text ≠ []
  trim_eq : trim text = text
  seamless : Seamless 0 text

theorem IsMember.members_eq (isMember : IsMember text) : members text = [text] := by
  have nonempty : text.isEmpty = false := by simp [isMember.ne_nil]
  simp [members, pieces_of_seamless isMember.seamless, isMember.trim_eq, nonempty]

theorem Seamless.trim (seamless : Seamless 0 text) : Seamless 0 (Text.trim text) := by
  obtain ⟨front, back, isText, blankFront, _⟩ := exists_blanks_around text
  rw [isText, seamless_append, seamless_append, depthBehind_of_blanks blankFront] at seamless
  exact seamless.1.2

theorem Closed.trim (closed : Closed text) : Closed (Text.trim text) := by
  obtain ⟨front, back, isText, blankFront, blankBack⟩ := exists_blanks_around text
  unfold Closed at closed
  rw [isText, depthBehind_append, depthBehind_append, depthBehind_of_blanks blankFront,
    depthBehind_of_blanks blankBack] at closed
  exact closed

theorem isMember_of_mem {member : List Char} (found : member ∈ members text) :
    IsMember member := by
  rw [members, List.mem_filter, List.mem_map] at found
  obtain ⟨⟨piece, isPiece, rfl⟩, nonempty⟩ := found
  exact ⟨by simpa using nonempty, trim_trim piece,
    (seamless_of_mem_pieces text piece isPiece).trim⟩

/-- All members but the last leave nothing open: only the last piece of a text may, and it
is not blank then. -/
theorem closed_of_mem_dropLast_members {member : List Char}
    (found : member ∈ (members text).dropLast) : Closed member := by
  obtain ⟨front, last, isCut⟩ := (List.eq_nil_or_concat' (pieces 0 text)).resolve_left
    (pieces_ne_nil text)
  have closedFront := closed_of_mem_dropLast text
  rw [isCut, List.dropLast_concat] at closedFront
  have inFront : member ∈ (front.map Text.trim).filter (! ·.isEmpty) := by
    rw [members, isCut, List.map_append, List.filter_append] at found
    by_cases blank : (Text.trim last).isEmpty = true
    · rw [List.map_singleton, List.filter_singleton, blank] at found
      simpa using List.dropLast_subset _ found
    · rw [List.map_singleton, List.filter_singleton] at found
      simpa [blank] using found
  rw [List.mem_filter, List.mem_map] at inFront
  obtain ⟨⟨piece, isPiece, rfl⟩, _⟩ := inFront
  exact (closedFront piece isPiece).trim

/-! ## Members of joined texts -/

theorem members_append_bar (closed : Closed left) (right : List Char) :
    members (left ++ '|' :: right) = members left ++ members right := by
  rw [members, pieces_append_closed closed, List.map_append, List.filter_append, members, members]

theorem seamless_blank {blank : Char} (isSpace : isBlank blank = true) (depth : Nat) :
    Seamless depth [blank] := by
  apply seamless_of_not_mem
  intro isBar
  rw [List.mem_singleton] at isBar
  subst isBar
  exact absurd isSpace (by decide)

theorem members_cons_blank {blank : Char} (isSpace : isBlank blank = true)
    (text : List Char) : members (blank :: text) = members text := by
  have cut := pieces_append (seamless_blank isSpace 0) text
  rw [depthBehind_cons, depthAfter_of_blank isSpace, depthBehind_nil] at cut
  rw [members, members, ← List.singleton_append, cut]
  cases pieces 0 text with
  | nil => rfl
  | cons piece rest =>
      rw [List.modifyHead_cons, List.map_cons, List.map_cons, List.singleton_append,
        trim_cons_blank isSpace]

theorem members_concat_blank {blank : Char} (isSpace : isBlank blank = true)
    (text : List Char) : members (text ++ [blank]) = members text := by
  induction text using cutInduction with
  | whole text seamless =>
      have wider : Seamless 0 (text ++ [blank]) :=
        seamless_append.mpr ⟨seamless, seamless_blank isSpace _⟩
      rw [members, members, pieces_of_seamless wider, pieces_of_seamless seamless,
        List.map_singleton, List.map_singleton, trim_concat_blank isSpace]
  | bar before after seamless closed ih =>
      rw [List.append_assoc, List.cons_append, members_append_bar closed,
        members_append_bar closed, ih]

theorem members_trim (text : List Char) : members (trim text) = members text := by
  have behindBlanks : ∀ front, (∀ character ∈ front, isBlank character = true) →
      ∀ rest, members (front ++ rest) = members rest := by
    intro front blank rest
    induction front with
    | nil => rfl
    | cons character front ih =>
        rw [List.forall_mem_cons] at blank
        rw [List.cons_append, members_cons_blank blank.1, ih blank.2]
  have beforeBlanks : ∀ back, (∀ character ∈ back, isBlank character = true) →
      ∀ front, members (front ++ back) = members front := by
    intro back blank
    induction back with
    | nil => simp
    | cons character back ih =>
        intro front
        rw [List.forall_mem_cons] at blank
        rw [List.append_cons, ih blank.2, members_concat_blank blank.1]
  obtain ⟨front, back, isText, blankFront, blankBack⟩ := exists_blanks_around text
  conv => rhs; rw [isText]
  rw [beforeBlanks back blankBack, behindBlanks front blankFront]

/-- The bar between members, with a blank on each side. -/
def separator : List Char := [' ', '|', ' ']

theorem members_append_separator (closed : Closed left) (right : List Char) :
    members (left ++ separator ++ right) = members left ++ members right := by
  have spaced : left ++ separator ++ right = (left ++ [' ']) ++ '|' :: ' ' :: right := by
    simp [separator]
  have closedSpaced : Closed (left ++ [' ']) := by
    unfold Closed at closed ⊢
    rw [depthBehind_append, closed]
    rfl
  rw [spaced, members_append_bar closedSpaced, members_concat_blank rfl, members_cons_blank rfl]

/-- Texts that are joined keep their members, if all but the last leave nothing open. -/
theorem members_intercalate {texts : List (List Char)}
    (closed : ∀ text ∈ texts.dropLast, Closed text) :
    members (separator.intercalate texts) = texts.flatMap members := by
  induction texts with
  | nil => rfl
  | cons text rest ih =>
      cases rest with
      | nil => rw [List.intercalate_singleton, List.flatMap_singleton]
      | cons next rest =>
          rw [List.dropLast_cons_cons, List.forall_mem_cons] at closed
          rw [List.intercalate_cons_cons, members_append_separator closed.1, ih closed.2,
            List.flatMap_cons (x := text)]

/-- The first members of a text, joined again, have just themselves as members. -/
theorem members_intercalate_of_front {front : List (List Char)}
    (isFront : front <+: members text) : members (separator.intercalate front) = front := by
  have closed : ∀ member ∈ front.dropLast, Closed member := by
    obtain ⟨back, isWhole⟩ := isFront
    intro member found
    apply @closed_of_mem_dropLast_members text
    rw [← isWhole]
    by_cases isAll : back = []
    · simpa [isAll] using found
    · rw [List.dropLast_append_of_ne_nil isAll]
      exact List.mem_append_left _ (List.dropLast_subset _ found)
  rw [members_intercalate closed]
  have same : ∀ member ∈ front, members member = [member] := by
    intro member found
    exact (isMember_of_mem (isFront.subset found)).members_eq
  rw [List.flatMap_congr same, List.flatMap_singleton']

/-! ## Unions -/

theorem toList_unionMembers (text : String) :
    (unionMembers text none).map String.toList = members text.toList := by
  simp [unionMembers, capped, Function.comp_def]

theorem unionMembers_eq_of_members {text : String} {names : List String}
    (isMembers : members text.toList = names.map String.toList) (limit : Option Nat) :
    unionMembers text limit = capped limit names := by
  simp [unionMembers, isMembers, Function.comp_def]

theorem toList_intercalate_separator (names : List String) :
    (" | ".intercalate names).toList = separator.intercalate (names.map String.toList) := by
  rw [String.toList_intercalate]
  rfl

/-- For every text, its members are a normal form.  Each is trimmed, not empty, and its own
only member.  The first of them, however many, are what they are cut into again when they are
joined, under any limit.  And they are what the text spells: there is one way to cut it at its
bars at depth zero, and the members are the trimmed pieces that are not blank. -/
theorem unionMembers_normal (text : String) :
    (∀ member ∈ unionMembers text none,
      member ≠ "" ∧ trimmed member = member ∧ unionMembers member none = [member]) ∧
    (∀ front, front <+: unionMembers text none → ∀ limit,
      unionMembers (" | ".intercalate front) limit = capped limit front) ∧
    (∃! parts, IsCut text.toList parts) ∧
    ∀ parts, IsCut text.toList parts →
      unionMembers text none =
        ((parts.map trim).filter (! ·.isEmpty)).map String.ofList := by
  refine ⟨?_, ?_, ⟨pieces 0 text.toList, isCut_iff.mpr rfl, ?_⟩, ?_⟩
  · intro member found
    have foundInText : member.toList ∈ members text.toList := by
      rw [← toList_unionMembers]
      exact List.mem_map_of_mem found
    have isMember := isMember_of_mem foundInText
    refine ⟨?_, ?_, ?_⟩
    · intro isEmpty
      exact isMember.ne_nil (by rw [isEmpty]; rfl)
    · rw [trimmed, isMember.trim_eq, String.ofList_toList]
    · exact unionMembers_eq_of_members isMember.members_eq none
  · intro front isFront limit
    have isFrontOfText : front.map String.toList <+: members text.toList := by
      rw [← toList_unionMembers]
      exact isFront.map String.toList
    apply unionMembers_eq_of_members
    rw [toList_intercalate_separator, members_intercalate_of_front isFrontOfText]
  · intro parts cut
    exact isCut_iff.mp cut
  · intro parts cut
    rw [isCut_iff.mp cut]
    rfl

end TypeTrace.Types
