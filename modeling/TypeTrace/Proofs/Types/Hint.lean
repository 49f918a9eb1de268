import TypeTrace.Flow.Event
import TypeTrace.Proofs.Types.Names

/-!
# Quotes around a hint

A hint is unwrapped by its two ends: if it begins and ends with the same quote, this quote is
taken away on both sides, whatever stands between.  That is right for a literal, where the
quote does not occur inside.  A union of several quoted members may begin and end with the same
quote as well, and then the first member loses its opening quote and the last its closing one.
-/

namespace TypeTrace.Types

open Text

/-! ## Quotes -/

/-- The characters that quotes are made of. -/
def quoteCharacters : List Char := ['"', '\'']

section Quotes

variable {quote inner text : List Char}

theorem mem_quoteCharacters {character : Char} :
    character ∈ quoteCharacters ↔ character = '"' ∨ character = '\'' := by
  simp [quoteCharacters]

/-- A quote is an odd number of times one character. -/
theorem exists_character_of_quote (isQuote : quote ∈ quotes) :
    ∃ character ∈ quoteCharacters,
      quote = List.replicate quote.length character ∧ quote.length % 2 = 1 := by
  simp only [quotes, List.mem_cons, List.not_mem_nil, or_false] at isQuote
  rcases isQuote with rfl | rfl | rfl | rfl
  · exact ⟨'"', by decide, rfl, rfl⟩
  · exact ⟨'\'', by decide, rfl, rfl⟩
  · exact ⟨'"', by decide, rfl, rfl⟩
  · exact ⟨'\'', by decide, rfl, rfl⟩

/-- A text of quote characters only. -/
def Marks (text : List Char) : Prop :=
  ∀ character ∈ text, character ∈ quoteCharacters

theorem marks_of_quote (isQuote : quote ∈ quotes) : Marks quote := by
  obtain ⟨repeated, isCharacter, isRepeated, _⟩ := exists_character_of_quote isQuote
  intro character isPart
  rw [isRepeated] at isPart
  rwa [List.eq_of_mem_replicate isPart]

theorem quote_ne_nil (isQuote : quote ∈ quotes) : quote ≠ [] := by
  revert quote
  decide

theorem exists_cons_of_quote (isQuote : quote ∈ quotes) :
    ∃ character ∈ quoteCharacters, ∃ others, quote = character :: others := by
  obtain ⟨character, others, rfl⟩ := List.exists_cons_of_ne_nil (quote_ne_nil isQuote)
  exact ⟨character, marks_of_quote isQuote character List.mem_cons_self, others, rfl⟩

theorem getLast?_quote (isQuote : quote ∈ quotes) : quote.getLast? = quote.head? := by
  revert quote
  decide

/-- A quote that begins with a shorter one is that one three times. -/
theorem eq_three_of_begins {longer : List Char} (isQuote : quote ∈ quotes)
    (isLonger : longer ∈ quotes) (begins : quote <+: longer)
    (shorter : quote.length < longer.length) : longer = quote ++ (quote ++ quote) := by
  have each : ∀ first ∈ quotes, ∀ second ∈ quotes, first <+: second →
      first.length < second.length → second = first ++ (first ++ first) := by decide
  exact each quote isQuote longer isLonger begins shorter

theorem between?_eq_some_iff :
    between? quote text = some inner ↔ text = quote ++ inner ++ quote := by
  rw [between?]
  constructor
  · intro found
    split at found
    next begins =>
      obtain ⟨rest, rfl⟩ := List.isPrefixOf_iff_prefix.mp begins
      rw [List.drop_left] at found
      dsimp only at found
      split at found
      next ends =>
        obtain ⟨front, rfl⟩ := List.isSuffixOf_iff_suffix.mp ends
        simpa using found
      next => cases found
    next => cases found
  · rintro rfl
    have ends : quote.isSuffixOf (inner ++ quote) = true := by
      rw [List.isSuffixOf_iff_suffix]
      exact List.suffix_append _ _
    simp [ends]

/-- A text stands in a quote, the longest that it begins and ends with. -/
structure StandsIn (quote inner text : List Char) : Prop where
  isQuote : quote ∈ quotes
  whole : text = quote ++ inner ++ quote
  longest : ∀ longer ∈ quotes, quote.length < longer.length →
    ∀ other, text ≠ longer ++ other ++ longer

theorem StandsIn.length_le {otherQuote otherInner : List Char}
    (stands : StandsIn quote inner text) (other : StandsIn otherQuote otherInner text) :
    quote.length ≤ otherQuote.length := by
  by_contra longer
  exact other.longest quote stands.isQuote (Nat.lt_of_not_le longer) inner stands.whole

theorem StandsIn.unique {otherQuote otherInner : List Char} (stands : StandsIn quote inner text)
    (other : StandsIn otherQuote otherInner text) : quote = otherQuote ∧ inner = otherInner := by
  have sameLength := Nat.le_antisymm (stands.length_le other) (other.length_le stands)
  have sameText := stands.whole.symm.trans other.whole
  rw [List.append_assoc, List.append_assoc] at sameText
  obtain ⟨rfl, sameRest⟩ := List.append_inj sameText sameLength
  exact ⟨rfl, List.append_cancel_right sameRest⟩

theorem standsIn_of_findSome? (found : quotes.findSome? (between? · text) = some inner) :
    ∃ quote, StandsIn quote inner text := by
  obtain ⟨before, quote, after, isQuotes, isBetween, notBefore⟩ :=
    List.findSome?_eq_some_iff.mp found
  refine ⟨quote, by simp [isQuotes], between?_eq_some_iff.mp isBetween, ?_⟩
  intro longer isLonger shorter other isText
  -- Quotes are tried from the longest to the shortest.
  have descending : quotes.Pairwise fun first second => second.length ≤ first.length := by decide
  rw [isQuotes, List.pairwise_append, List.pairwise_cons] at descending
  rw [isQuotes, List.mem_append, List.mem_cons] at isLonger
  rcases isLonger with tried | rfl | later
  · cases (notBefore longer tried).symm.trans (between?_eq_some_iff.mpr isText)
  · exact Nat.lt_irrefl _ shorter
  · exact Nat.not_lt_of_le (descending.2.1.1 longer later) shorter

theorem exists_standsIn (isQuote : quote ∈ quotes) (whole : text = quote ++ inner ++ quote) :
    ∃ quote inner, StandsIn quote inner text := by
  have isSome : (quotes.findSome? (between? · text)).isSome = true := by
    rw [List.findSome?_isSome_iff]
    exact ⟨quote, isQuote, by rw [between?_eq_some_iff.mpr whole]; rfl⟩
  obtain ⟨found, isFound⟩ := Option.isSome_iff_exists.mp isSome
  obtain ⟨outer, stands⟩ := standsIn_of_findSome? isFound
  exact ⟨outer, found, stands⟩

/-! ## Unwrapping -/

theorem unquoted_of_standsIn (stands : StandsIn quote inner (trim text)) :
    unquoted text = trim inner := by
  rw [unquoted]
  split
  next found isFound =>
    obtain ⟨other, isOther⟩ := standsIn_of_findSome? isFound
    rw [(stands.unique isOther).2]
  next notFound =>
    have untouched := List.findSome?_eq_none_iff.mp notFound quote stands.isQuote
    cases untouched.symm.trans (between?_eq_some_iff.mpr stands.whole)

theorem unquoted_of_bare (bare : ∀ quote inner, ¬ StandsIn quote inner (trim text)) :
    unquoted text = trim text := by
  rw [unquoted]
  split
  next found isFound =>
    obtain ⟨quote, stands⟩ := standsIn_of_findSome? isFound
    exact absurd stands (bare quote found)
  next => rfl

theorem unquoted_ne_of_standsIn (stands : StandsIn quote inner (trim text)) :
    unquoted text ≠ trim text := by
  intro same
  rw [unquoted_of_standsIn stands] at same
  have lengths := congrArg List.length (same.trans stands.whole)
  have nonempty := List.length_pos_iff.mpr (quote_ne_nil stands.isQuote)
  have bound := length_trim_le inner
  rw [List.length_append, List.length_append] at lengths
  omega

theorem unquoted_ne_iff :
    unquoted text ≠ trim text ↔
      ∃ quote ∈ quotes, ∃ inner, trim text = quote ++ inner ++ quote := by
  constructor
  · intro differs
    by_contra none
    apply differs
    apply unquoted_of_bare
    intro quote inner stands
    exact none ⟨quote, stands.isQuote, inner, stands.whole⟩
  · rintro ⟨quote, isQuote, inner, whole⟩
    obtain ⟨outer, found, stands⟩ := exists_standsIn isQuote whole
    exact unquoted_ne_of_standsIn stands

/-- Only a literal is unwrapped: between the quotes that are taken away there is no third. -/
def UnwrapsLiteral (text : List Char) : Prop :=
  unquoted text ≠ trim text → ∃ quote ∈ quotes, ∃ inner,
    trim text = quote ++ inner ++ quote ∧ ¬ quote <:+: inner ∧ unquoted text = trim inner

theorem unwrapsLiteral_iff :
    UnwrapsLiteral text ↔
      ∀ quote inner, StandsIn quote inner (trim text) → ¬ quote <:+: inner := by
  constructor
  · intro unwraps quote inner stands
    obtain ⟨other, isQuote, rest, whole, notInside, _⟩ := unwraps (unquoted_ne_of_standsIn stands)
    have sameText := stands.whole.symm.trans whole
    have begins : other <+: quote ++ inner ++ quote := by
      rw [sameText, List.append_assoc]
      exact List.prefix_append _ _
    have quoteBegins : quote <+: quote ++ inner ++ quote := by
      rw [List.append_assoc]
      exact List.prefix_append _ _
    rcases Nat.lt_trichotomy other.length quote.length with shorter | same | longer
    · -- The other quote is a third of this one, so what is left of this one holds it.
      have isThree := eq_three_of_begins isQuote stands.isQuote
        (List.prefix_of_prefix_length_le begins quoteBegins (Nat.le_of_lt shorter)) shorter
      have isRest : rest = other ++ (other ++ inner ++ (other ++ other)) := by
        have sameEnds : other ++ rest ++ other =
            other ++ (other ++ (other ++ inner ++ (other ++ other))) ++ other := by
          rw [← sameText, isThree]
          simp only [List.append_assoc]
        exact List.append_cancel_left (List.append_cancel_right sameEnds)
      refine absurd ?_ notInside
      rw [isRest]
      exact (List.prefix_append _ _).isInfix
    · rw [List.append_assoc, List.append_assoc] at sameText
      obtain ⟨rfl, sameRest⟩ := List.append_inj sameText same.symm
      rwa [List.append_cancel_right sameRest]
    · exact absurd whole (stands.longest other isQuote longer rest)
  · intro literal differs
    obtain ⟨quote, isQuote, inner, whole⟩ := unquoted_ne_iff.mp differs
    obtain ⟨outer, found, stands⟩ := exists_standsIn isQuote whole
    exact ⟨outer, stands.isQuote, found, stands.whole, literal outer found stands,
      unquoted_of_standsIn stands⟩

/-! ## Texts with quotes at their ends -/

/-- A text with half of a pair of quotes: some quote character is there an odd number of
times. -/
def Halved (text : List Char) : Prop :=
  ∃ character ∈ quoteCharacters, text.count character % 2 = 1

instance (text : List Char) : Decidable (Halved text) :=
  List.decidableBEx (fun character => text.count character % 2 = 1) quoteCharacters

theorem not_isBlank_of_quoteCharacter {character : Char} (isQuote : character ∈ quoteCharacters) :
    isBlank character = false := by
  rcases mem_quoteCharacters.mp isQuote with rfl | rfl <;> rfl

namespace Marks

variable {front name back : List Char}

theorem nested (marks : Marks text) : Nested text := by
  apply Nested.of_plain
  intro character isPart
  rcases mem_quoteCharacters.mp (marks character isPart) with rfl | rfl <;> decide

theorem seamless (marks : Marks text) (depth : Nat) : Seamless depth text := by
  apply seamless_of_not_mem
  intro isBar
  exact absurd (marks '|' isBar) (by decide)

theorem closed_between (frontMarks : Marks front) (backMarks : Marks back)
    (closed : Closed name) : Closed (front ++ name ++ back) := by
  unfold Closed
  rw [depthBehind_append, depthBehind_append, frontMarks.nested.depthBehind_eq,
    backMarks.nested.depthBehind_eq]
  exact closed

theorem seamless_between (frontMarks : Marks front) (backMarks : Marks back)
    (seamless : Seamless 0 name) : Seamless 0 (front ++ name ++ back) := by
  rw [seamless_append, seamless_append, frontMarks.nested.depthBehind_eq]
  exact ⟨⟨frontMarks.seamless 0, seamless⟩, backMarks.seamless _⟩

/-- There are blanks around the bar between members, and quotes have none. -/
theorem exists_behind_separator {left rest : List Char} (marks : Marks back)
    (same : left ++ separator ++ rest = inner ++ back) :
    ∃ behind, inner = left ++ separator ++ behind := by
  rcases List.append_eq_append_iff.mp same with ⟨behind, isInner, _⟩ | ⟨cut, isLeft, isBack⟩
  · exact ⟨behind, isInner⟩
  · rcases List.eq_nil_or_concat' cut with rfl | ⟨others, character, rfl⟩
    · exact ⟨[], by rw [isLeft, List.append_nil, List.append_nil]⟩
    · have isBlankCharacter : character = ' ' := by
        have lasts := congrArg List.getLast? isLeft
        simpa [separator] using lasts.symm
      refine absurd (marks ' ' ?_) (by decide)
      rw [isBack, isBlankCharacter]
      simp

end Marks

theorem tight_of_quotes {opening closing : List Char} (opens : opening ∈ quotes)
    (closes : closing ∈ quotes) (inner : List Char) : Tight (opening ++ inner ++ closing) where
  front := by
    intro character isFirst
    rw [List.append_assoc, List.head?_append_of_ne_nil _ (quote_ne_nil opens)] at isFirst
    exact not_isBlank_of_quoteCharacter
      (marks_of_quote opens character (List.mem_of_mem_head? isFirst))
  back := by
    intro character isLast
    rw [List.getLast?_append_of_ne_nil _ (quote_ne_nil closes)] at isLast
    exact not_isBlank_of_quoteCharacter
      (marks_of_quote closes character (List.mem_of_mem_getLast? isLast))

theorem halved_member_of_piece {piece : List Char} (isPiece : piece ∈ pieces 0 text)
    (halved : Halved piece) : ∃ label ∈ members text, Halved label := by
  obtain ⟨character, isQuote, odd⟩ := halved
  have sameCount := count_trim (not_isBlank_of_quoteCharacter isQuote) piece
  refine ⟨trim piece, ?_, character, isQuote, sameCount.symm ▸ odd⟩
  rw [members, List.mem_filter]
  refine ⟨List.mem_map_of_mem isPiece, ?_⟩
  cases isTrimmed : trim piece with
  | nil =>
      rw [isTrimmed, List.count_nil] at sameCount
      rw [← sameCount] at odd
      cases odd
  | cons => rfl

/-- What is quoted is torn apart if it has a bar at depth zero, or if the quote in front is
not whole while the one behind is. -/
theorem exists_halved {front name : List Char} (isQuote : quote ∈ quotes)
    (isFront : front <:+ quote) (plain : ∀ character ∈ name, character ∉ quoteCharacters)
    (torn : ¬ Seamless 0 name ∨ (front.length + quote.length) % 2 = 1) :
    ∃ label ∈ members (front ++ name ++ quote), Halved label := by
  obtain ⟨character, isCharacter, isRepeated, odd⟩ := exists_character_of_quote isQuote
  have countQuote : quote.count character = quote.length := by
    rw [isRepeated, List.count_replicate_self, List.length_replicate]
  have countFront : front.count character = front.length := by
    rw [List.count_eq_length]
    intro other isPart
    have inQuote := isFront.subset isPart
    rw [isRepeated] at inQuote
    exact (List.eq_of_mem_replicate inQuote).symm
  have countName : ∀ part, part <:+ name → part.count character = 0 := by
    intro part isPart
    apply List.count_eq_zero_of_not_mem
    intro inPart
    exact plain character (isPart.subset inPart) isCharacter
  have quoteMarks := marks_of_quote isQuote
  have frontMarks : Marks front := by
    intro other isPart
    exact quoteMarks other (isFront.subset isPart)
  by_cases seamless : Seamless 0 name
  · have oddTogether := torn.resolve_left (not_not_intro seamless)
    have halved : Halved (front ++ name ++ quote) := by
      refine ⟨character, isCharacter, ?_⟩
      rwa [List.count_append, List.count_append, countFront, countQuote,
        countName name (List.suffix_refl name), Nat.add_zero]
    refine halved_member_of_piece ?_ halved
    rw [pieces_of_seamless (frontMarks.seamless_between quoteMarks seamless)]
    exact List.mem_singleton_self _
  · -- The last piece of the name keeps the quote behind it and has none in front.
    obtain ⟨before, after, rfl, closedBefore, seamlessAfter⟩ := exists_last_bar seamless
    have closedFront : Closed (front ++ before) := by
      unfold Closed
      rw [depthBehind_append, frontMarks.nested.depthBehind_eq]
      exact closedBefore
    have last : Seamless 0 (after ++ quote) := by
      rw [seamless_append]
      exact ⟨seamlessAfter, quoteMarks.seamless _⟩
    have isCut : front ++ (before ++ '|' :: after) ++ quote =
        front ++ before ++ '|' :: (after ++ quote) := by
      simp
    have halved : Halved (after ++ quote) := by
      have isEnd : after <:+ before ++ '|' :: after :=
        (List.suffix_cons _ _).trans (List.suffix_append _ _)
      refine ⟨character, isCharacter, ?_⟩
      rwa [List.count_append, countQuote, countName after isEnd, Nat.zero_add]
    refine halved_member_of_piece ?_ halved
    rw [isCut, pieces_append_closed closedFront, pieces_of_seamless last]
    exact List.mem_append_right _ (List.mem_singleton_self _)

end Quotes

/-! ## Unions of quoted members -/

/-- A member of a hint that stands in quotes of its own. -/
structure QuotedMember where
  quote : List Char
  name : List Char
  isQuote : quote ∈ quotes
  plain : ∀ character ∈ name, character ∉ quoteCharacters
  closed : Closed name

namespace QuotedMember

/-- The member as it is written. -/
def text (member : QuotedMember) : List Char :=
  member.quote ++ member.name ++ member.quote

/-- The union of quoted members, as it is written. -/
def union (members : List QuotedMember) : List Char :=
  separator.intercalate (members.map text)

theorem marks (member : QuotedMember) : Marks member.quote :=
  marks_of_quote member.isQuote

theorem closed_text (member : QuotedMember) : Closed member.text :=
  member.marks.closed_between member.marks member.closed

theorem not_halved_of_seamless (member : QuotedMember) (seamless : Seamless 0 member.name) :
    ∀ label ∈ members member.text, ¬ Halved label := by
  have isMember : IsMember member.text := by
    refine ⟨?_, (tight_of_quotes member.isQuote member.isQuote _).trim_eq,
      member.marks.seamless_between member.marks seamless⟩
    simp [text, quote_ne_nil member.isQuote]
  rw [isMember.members_eq, List.forall_mem_singleton]
  rintro ⟨character, isCharacter, odd⟩
  have notInName : member.name.count character = 0 := by
    apply List.count_eq_zero_of_not_mem
    intro inName
    exact member.plain character inName isCharacter
  rw [text, List.count_append, List.count_append, notInName] at odd
  omega

/-- Behind a quoted member comes a blank, so its own quote is all that its text begins with. -/
theorem begins_quote {quote : List Char} (isQuote : quote ∈ quotes) (member : QuotedMember)
    {more : List Char} (begins : quote <+: member.text ++ ' ' :: more) :
    quote <+: member.quote := by
  have memberBegins : member.quote <+: member.text ++ ' ' :: more := by
    rw [text, List.append_assoc, List.append_assoc]
    exact List.prefix_append _ _
  by_cases longer : member.quote.length < quote.length
  · have isThree := eq_three_of_begins member.isQuote isQuote
      (List.prefix_of_prefix_length_le memberBegins begins (Nat.le_of_lt longer)) longer
    rw [isThree, text, List.append_assoc, List.append_assoc, List.prefix_append_right_inj] at begins
    obtain ⟨character, isCharacter, others, isFirst⟩ := exists_cons_of_quote member.isQuote
    cases isName : member.name with
    | nil =>
        rw [isName, List.nil_append, List.prefix_append_right_inj, isFirst,
          List.cons_prefix_cons] at begins
        rw [begins.1] at isCharacter
        exact absurd isCharacter (by decide)
    | cons first rest =>
        rw [isName, isFirst, List.cons_append, List.cons_append, List.cons_prefix_cons] at begins
        refine absurd isCharacter (member.plain character ?_)
        rw [isName, begins.1]
        exact List.mem_cons_self
  · exact List.prefix_of_prefix_length_le begins memberBegins (Nat.le_of_not_lt longer)

/-! ### The ends of a union -/

theorem union_cons (first : QuotedMember) {rest : List QuotedMember} (more : rest ≠ []) :
    union (first :: rest) = first.text ++ separator ++ union rest := by
  have someText : rest.map text ≠ [] := by simpa using more
  rw [union, List.map_cons, List.intercalate_cons_of_ne_nil someText, union]

theorem text_suffix_union (members : List QuotedMember) (last : QuotedMember) :
    last.text <:+ union (members ++ [last]) := by
  induction members with
  | nil => simp [union]
  | cons member rest ih =>
      rw [List.cons_append, union_cons member (by simp)]
      exact ih.trans (List.suffix_append _ _)

variable (first last : QuotedMember) (middle : List QuotedMember)

theorem exists_union_eq :
    ∃ inner, union (first :: (middle ++ [last])) = first.quote ++ inner ++ last.quote := by
  obtain ⟨before, isUnion⟩ := text_suffix_union middle last
  rw [union_cons first (by simp), ← isUnion]
  refine ⟨first.name ++ first.quote ++ separator ++ before ++ last.quote ++ last.name, ?_⟩
  simp only [text, List.append_assoc]

theorem trim_union : trim (union (first :: (middle ++ [last]))) =
    union (first :: (middle ++ [last])) := by
  obtain ⟨inner, isUnion⟩ := exists_union_eq first last middle
  rw [isUnion]
  exact (tight_of_quotes first.isQuote last.isQuote inner).trim_eq

/-- A union whose ends are quoted by different characters is left as it is written. -/
theorem unquoted_union_of_ne (differ : first.quote.head? ≠ last.quote.head?) :
    unquoted (union (first :: (middle ++ [last]))) = union (first :: (middle ++ [last])) := by
  rw [unquoted_of_bare, trim_union]
  intro quote inner stands
  obtain ⟨shown, isUnion⟩ := exists_union_eq first last middle
  have sameText : first.quote ++ shown ++ last.quote = quote ++ inner ++ quote := by
    rw [← isUnion, ← trim_union, stands.whole]
  have sameFirst := congrArg List.head? sameText
  have sameLast := congrArg List.getLast? sameText
  rw [List.append_assoc, List.append_assoc,
    List.head?_append_of_ne_nil _ (quote_ne_nil first.isQuote),
    List.head?_append_of_ne_nil _ (quote_ne_nil stands.isQuote)] at sameFirst
  rw [List.getLast?_append_of_ne_nil _ (quote_ne_nil last.isQuote),
    List.getLast?_append_of_ne_nil _ (quote_ne_nil stands.isQuote),
    getLast?_quote last.isQuote, getLast?_quote stands.isQuote] at sameLast
  exact differ (sameFirst.trans sameLast.symm)

theorem exists_standsIn_union (same : first.quote.head? = last.quote.head?) :
    ∃ quote inner, StandsIn quote inner (union (first :: (middle ++ [last]))) := by
  obtain ⟨character, isCharacter, others, isFirst⟩ := exists_cons_of_quote first.isQuote
  obtain ⟨before, isLast⟩ : ∃ before, last.quote = before ++ [character] := by
    rw [← List.getLast?_eq_some_iff, getLast?_quote last.isQuote, ← same, isFirst, List.head?_cons]
  obtain ⟨shown, isUnion⟩ := exists_union_eq first last middle
  have alone : [character] ∈ quotes := by
    rcases mem_quoteCharacters.mp isCharacter with rfl | rfl <;> decide
  refine exists_standsIn alone (show _ = _ ++ (others ++ shown ++ before) ++ _ from ?_)
  rw [isUnion, isFirst, isLast]
  simp only [List.cons_append, List.nil_append, List.append_assoc]

/-- A union whose ends are quoted by the same character is torn apart: the first member keeps
its closing quote and loses what the last one ends with. -/
theorem exists_halved_of_same (same : first.quote.head? = last.quote.head?) :
    ∃ label ∈ members (unquoted (union (first :: (middle ++ [last])))), Halved label := by
  obtain ⟨quote, inner, stands⟩ := exists_standsIn_union first last middle same
  have isWhole := stands.whole
  rw [← trim_union] at stands
  rw [unquoted_of_standsIn stands, members_trim]
  rw [union_cons first (by simp)] at isWhole
  obtain ⟨front, isQuote⟩ : quote <+: first.quote := by
    apply begins_quote stands.isQuote first
    rw [List.append_assoc, separator, List.cons_append] at isWhole
    rw [isWhole, List.append_assoc]
    exact List.prefix_append _ _
  have isRest : front ++ first.name ++ first.quote ++ separator ++ union (middle ++ [last]) =
      inner ++ quote := by
    rw [text] at isWhole
    nth_rewrite 1 [← isQuote] at isWhole
    simp only [List.append_assoc] at isWhole ⊢
    exact List.append_cancel_left isWhole
  have frontMarks : Marks front := by
    intro character isPart
    apply first.marks
    rw [← isQuote]
    exact List.mem_append_right _ isPart
  obtain ⟨behind, rfl⟩ := (marks_of_quote stands.isQuote).exists_behind_separator isRest
  rw [members_append_separator (frontMarks.closed_between first.marks first.closed)]
  have odd : (front.length + first.quote.length) % 2 = 1 := by
    obtain ⟨_, _, _, oddQuote⟩ := exists_character_of_quote stands.isQuote
    obtain ⟨_, _, _, oddFirst⟩ := exists_character_of_quote first.isQuote
    have lengths := congrArg List.length isQuote
    rw [List.length_append] at lengths
    omega
  obtain ⟨label, isLabel, halved⟩ :=
    exists_halved first.isQuote ⟨quote, isQuote⟩ first.plain (.inr odd)
  exact ⟨label, List.mem_append_left _ isLabel, halved⟩

theorem halved_label_iff :
    (∃ label ∈ members (unquoted (union (first :: (middle ++ [last])))), Halved label) ↔
      first.quote.head? = last.quote.head? ∨
        ∃ member ∈ first :: (middle ++ [last]), ¬ Seamless 0 member.name := by
  by_cases same : first.quote.head? = last.quote.head?
  · exact iff_of_true (exists_halved_of_same first last middle same) (.inl same)
  · have closed : ∀ shown ∈ ((first :: (middle ++ [last])).map text).dropLast, Closed shown := by
      intro shown isShown
      obtain ⟨member, _, rfl⟩ := List.mem_map.mp (List.dropLast_subset _ isShown)
      exact member.closed_text
    rw [unquoted_union_of_ne first last middle same, union, members_intercalate closed,
      List.flatMap_map, or_iff_right same]
    simp only [List.mem_flatMap]
    constructor
    · rintro ⟨label, ⟨member, isMember, isLabel⟩, halved⟩
      refine ⟨member, isMember, ?_⟩
      intro seamless
      exact member.not_halved_of_seamless seamless label isLabel halved
    · rintro ⟨member, isMember, seam⟩
      obtain ⟨label, isLabel, halved⟩ :=
        exists_halved member.isQuote (List.suffix_refl _) member.plain (.inl seam)
      exact ⟨label, ⟨member, isMember, isLabel⟩, halved⟩

theorem intact_labels_iff :
    (∀ label ∈ unionMembers (hintText (String.ofList (union (first :: (middle ++ [last]))))) none,
        ¬ Halved label.toList) ↔
      first.quote.head? ≠ last.quote.head? ∧
        ∀ member ∈ first :: (middle ++ [last]), Seamless 0 member.name := by
  have isHint : (hintText (String.ofList (union (first :: (middle ++ [last]))))).toList =
      unquoted (union (first :: (middle ++ [last]))) := by
    rw [hintText, String.toList_ofList, String.toList_ofList]
  have noneHalved := not_congr (halved_label_iff first last middle)
  rw [← isHint, ← toList_unionMembers] at noneHalved
  simpa only [not_or, not_exists, not_and, not_not, List.forall_mem_map] using noneHalved

end QuotedMember

theorem unionMembers_subset (text : String) (limit : Option Nat) :
    unionMembers text limit ⊆ unionMembers text none := by
  cases limit with
  | none => exact List.Subset.refl _
  | some limit => exact List.take_subset limit _

/-- A hint is changed exactly where it begins and ends with the same quote, and then it is what
stands between the longest such quotes.  It is a literal that was unwrapped exactly where this
quote does not occur inside.  The labels of a union of quoted members have no half of a pair of
quotes exactly where its ends are quoted by different characters and no member has a bar at
depth zero. -/
theorem unquoted_by_ends (text : List Char) (oracle : Oracle) (unit : SourceUnit)
    (node : Syntax.Node) (first last : QuotedMember) (middle : List QuotedMember) :
    (unquoted text ≠ trim text ↔
      ∃ quote ∈ quotes, ∃ inner, trim text = quote ++ inner ++ quote) ∧
    (∀ quote inner, StandsIn quote inner (trim text) → unquoted text = trim inner) ∧
    (UnwrapsLiteral text ↔
      ∀ quote inner, StandsIn quote inner (trim text) → ¬ quote <:+: inner) ∧
    ((∀ limit,
        ∀ label ∈ (Flow.Evidence.hint node (String.ofList
          (QuotedMember.union (first :: (middle ++ [last]))))).labels oracle limit unit,
        ¬ Halved label.toList) ↔
      first.quote.head? ≠ last.quote.head? ∧
        ∀ member ∈ first :: (middle ++ [last]), Seamless 0 member.name) := by
  refine ⟨unquoted_ne_iff, fun _ _ => unquoted_of_standsIn, unwrapsLiteral_iff, ?_⟩
  rw [← QuotedMember.intact_labels_iff]
  constructor
  · intro intact
    exact intact none
  · intro intact limit label isLabel
    exact intact label (unionMembers_subset _ limit isLabel)

/-- Two quoted members: each label has one quote of a pair. -/
theorem quoted_union_torn :
    ¬ UnwrapsLiteral "'A' | 'B'".toList ∧
      unionMembers (hintText "'A' | 'B'") (some 2) = ["A'", "'B"] ∧
      Halved "A'".toList ∧ Halved "'B".toList := by
  refine ⟨?_, by decide, by decide, by decide⟩
  rw [unwrapsLiteral_iff]
  intro literal
  have stands : StandsIn ['\''] "A' | 'B".toList (trim "'A' | 'B'".toList) := by
    refine ⟨by decide, by decide, ?_⟩
    intro longer isLonger isMore other isText
    have notBetween : ∀ quote ∈ quotes, 1 < quote.length →
        between? quote (trim "'A' | 'B'".toList) = none := by decide
    cases (notBetween longer isLonger isMore).symm.trans (between?_eq_some_iff.mpr isText)
  exact literal _ _ stands ⟨['A'], " | 'B".toList, by decide⟩

end TypeTrace.Types
