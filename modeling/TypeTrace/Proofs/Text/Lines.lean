import Mathlib.Data.List.TakeWhile
import TypeTrace.Text.Lines

/-!
# Lines by bytes

A line break is a byte, and the line of an offset is the number of line breaks before it.  A
line begins at the first offset of its number.  The starts of all lines are in increasing
order, so how many of them an offset has passed tells its line (`le_breaksBefore_iff`), and
everything else about lines and columns follows from that.
-/

namespace TypeTrace.Text

/-! ## Bytes -/

/-- The bytes of a text in UTF-8. -/
def encoded (text : List Char) : List UInt8 :=
  text.flatMap String.utf8EncodeChar

/-- The byte that ends a line. -/
def newline : UInt8 := 0x0A

/-- The number of line breaks among the first bytes of a text. -/
def breaksBefore (text : List Char) (offset : Nat) : Nat :=
  ((encoded text).take offset).count newline

variable {text : List Char} {line column offset start : Nat}

theorem byteSize_eq (text : List Char) : byteSize text = (encoded text).length := by
  induction text with
  | nil => rfl
  | cons character rest ih =>
      rw [byteSize, ih, encoded, encoded, List.flatMap_cons, List.length_append,
        String.length_utf8EncodeChar]

theorem newline_ne_ofNat {code : Nat} (small : code < 256) (differs : code ≠ 10) :
    newline ≠ UInt8.ofNat code := by
  intro same
  have codes : 10 = code % 256 := congrArg UInt8.toNat same
  omega

/-- No other character has the byte of a line break in it. -/
theorem newline_not_mem {character : Char} (differs : character ≠ '\n') :
    newline ∉ String.utf8EncodeChar character := by
  have codeDiffers : character.val.toNat ≠ 10 := by
    intro same
    exact differs (Char.ext (UInt32.toNat_inj.mp same))
  rw [String.utf8EncodeChar]
  -- The bytes of a longer encoding are all above the range of single ones.
  split <;> [skip; (split <;> [skip; split])] <;>
    simp only [List.mem_cons, List.not_mem_nil, or_false, not_or]
  · exact newline_ne_ofNat (by omega) codeDiffers
  · exact ⟨newline_ne_ofNat (by omega) (by omega), newline_ne_ofNat (by omega) (by omega)⟩
  · exact ⟨newline_ne_ofNat (by omega) (by omega), newline_ne_ofNat (by omega) (by omega),
      newline_ne_ofNat (by omega) (by omega)⟩
  · exact ⟨newline_ne_ofNat (by omega) (by omega), newline_ne_ofNat (by omega) (by omega),
      newline_ne_ofNat (by omega) (by omega), newline_ne_ofNat (by omega) (by omega)⟩

/-! ## Line breaks -/

theorem breaksBefore_newline (rest : List Char) (offset : Nat) :
    breaksBefore ('\n' :: rest) (offset + 1) = breaksBefore rest offset + 1 := by
  have isEncoded : encoded ('\n' :: rest) = newline :: encoded rest := rfl
  rw [breaksBefore, isEncoded, List.take_succ_cons, List.count_cons_self, breaksBefore]

theorem breaksBefore_cons {character : Char} (differs : character ≠ '\n') (rest : List Char)
    (offset : Nat) :
    breaksBefore (character :: rest) offset =
      breaksBefore rest (offset - character.utf8Size) := by
  have noBreak : ((String.utf8EncodeChar character).take offset).count newline = 0 := by
    apply List.count_eq_zero_of_not_mem
    intro isByte
    exact newline_not_mem differs (List.mem_of_mem_take isByte)
  rw [breaksBefore, encoded, List.flatMap_cons, List.take_append, List.count_append, noBreak,
    Nat.zero_add, String.length_utf8EncodeChar]
  rfl

theorem breaksBefore_mono (text : List Char) {earlier later : Nat} (ordered : earlier ≤ later) :
    breaksBefore text earlier ≤ breaksBefore text later :=
  (List.take_sublist_take_left ordered).count_le newline

theorem breaksBefore_le_length (text : List Char) (offset : Nat) :
    breaksBefore text offset ≤ (encoded text).length :=
  Nat.le_trans List.count_le_length (List.length_take_le' offset _)

theorem breaksBefore_le_count (text : List Char) (offset : Nat) :
    breaksBefore text offset ≤ text.count '\n' := by
  induction text generalizing offset with
  | nil => simp [breaksBefore, encoded]
  | cons character rest ih =>
      by_cases isBreak : character = '\n'
      · subst isBreak
        rw [List.count_cons_self]
        cases offset with
        | zero => exact Nat.zero_le _
        | succ offset =>
            rw [breaksBefore_newline]
            exact Nat.succ_le_succ (ih offset)
      · rw [breaksBefore_cons isBreak, List.count_cons_of_ne (by simpa using isBreak)]
        exact ih _

/-! ## The starts of lines -/

theorem bounds_of_mem_startsAfterBreaks {position : Nat}
    (isStart : start ∈ startsAfterBreaks position text) :
    position < start ∧ start ≤ position + (encoded text).length := by
  rw [← byteSize_eq]
  induction text generalizing position with
  | nil => cases isStart
  | cons character rest ih =>
      have wide := character.utf8Size_pos
      rw [startsAfterBreaks] at isStart
      rw [byteSize]
      split at isStart
      · rw [List.mem_cons] at isStart
        rcases isStart with rfl | later
        · omega
        · have bounds := ih later
          omega
      · have bounds := ih isStart
        omega

theorem startsAfterBreaks_ascending (text : List Char) (position : Nat) :
    (startsAfterBreaks position text).Pairwise (· < ·) := by
  induction text generalizing position with
  | nil => exact .nil
  | cons character rest ih =>
      rw [startsAfterBreaks]
      split
      · rw [List.pairwise_cons]
        exact ⟨fun _ isStart => (bounds_of_mem_startsAfterBreaks isStart).1, ih _⟩
      · exact ih _

/-- As many starts are passed as there are line breaks. -/
theorem length_takeWhile_startsAfterBreaks (text : List Char) (position offset : Nat) :
    ((startsAfterBreaks position text).takeWhile (· ≤ position + offset)).length =
      breaksBefore text offset := by
  induction text generalizing position offset with
  | nil => simp [startsAfterBreaks, breaksBefore, encoded]
  | cons character rest ih =>
      have passed : ∀ next, position + offset < next →
          (startsAfterBreaks next rest).takeWhile (· ≤ position + offset) = [] := by
        intro next behind
        rw [List.takeWhile_eq_nil_iff]
        intro nonempty
        have later := (bounds_of_mem_startsAfterBreaks (List.get_mem _ ⟨0, nonempty⟩)).1
        simp only [decide_eq_true_eq]
        omega
      rw [startsAfterBreaks]
      by_cases isBreak : character = '\n'
      · subst isBreak
        rw [if_pos rfl, show '\n'.utf8Size = 1 from rfl]
        cases offset with
        | zero => simp [breaksBefore]
        | succ offset =>
            rw [List.takeWhile_cons_of_pos (by simp), List.length_cons, breaksBefore_newline,
              show position + (offset + 1) = position + 1 + offset by omega, ih]
      · rw [if_neg isBreak, breaksBefore_cons isBreak]
        by_cases inside : character.utf8Size ≤ offset
        · rw [show position + offset =
            position + character.utf8Size + (offset - character.utf8Size) by omega, ih]
        · rw [passed _ (by omega), show offset - character.utf8Size = 0 by omega]
          rfl

theorem lineStarts_ascending (text : List Char) : (lineStarts text).Pairwise (· < ·) := by
  rw [lineStarts, List.pairwise_cons]
  exact ⟨fun _ isStart => (bounds_of_mem_startsAfterBreaks isStart).1,
    startsAfterBreaks_ascending text 0⟩

theorem length_takeWhile_lineStarts (text : List Char) (offset : Nat) :
    ((lineStarts text).takeWhile (· ≤ offset)).length = breaksBefore text offset + 1 := by
  have behind := length_takeWhile_startsAfterBreaks text 0 offset
  rw [Nat.zero_add] at behind
  rw [lineStarts, List.takeWhile_cons_of_pos (by simp), List.length_cons, behind]

/-- In increasing order, the elements up to a bound are those in front. -/
theorem lt_length_takeWhile_iff {values : List Nat} (ascending : values.Pairwise (· < ·))
    (index bound : Nat) :
    index < (values.takeWhile (· ≤ bound)).length ↔
      ∃ value, values[index]? = some value ∧ value ≤ bound := by
  induction values generalizing index with
  | nil => simp
  | cons head rest ih =>
      rw [List.pairwise_cons] at ascending
      by_cases within : head ≤ bound
      · rw [List.takeWhile_cons_of_pos (by simpa using within)]
        cases index with
        | zero => simpa using within
        | succ index => simpa using ih ascending.2 index
      · rw [List.takeWhile_cons_of_neg (by simpa using within)]
        simp only [List.length_nil, Nat.not_lt_zero, false_iff, not_exists, not_and]
        intro value found small
        have isElement := List.mem_of_getElem? found
        rw [List.mem_cons] at isElement
        rcases isElement with rfl | later
        · exact within small
        · exact within (Nat.le_trans (Nat.le_of_lt (ascending.1 value later)) small)

/-- A line is reached where it has started. -/
theorem le_breaksBefore_iff :
    line ≤ breaksBefore text offset ↔
      ∃ start, (lineStarts text)[line]? = some start ∧ start ≤ offset := by
  rw [← lt_length_takeWhile_iff (lineStarts_ascending text), length_takeWhile_lineStarts,
    Nat.lt_succ_iff]

/-- A line begins at the first offset with so many line breaks before it. -/
structure LineBegins (text : List Char) (line start : Nat) : Prop where
  inside : start ≤ (encoded text).length
  reached : breaksBefore text start = line
  first : ∀ offset < start, breaksBefore text offset < line

theorem lineBegins_of_getElem? (isStart : (lineStarts text)[line]? = some start) :
    LineBegins text line start where
  inside := by
    have isElement := List.mem_of_getElem? isStart
    rw [lineStarts, List.mem_cons] at isElement
    rcases isElement with rfl | later
    · exact Nat.zero_le _
    · simpa using (bounds_of_mem_startsAfterBreaks later).2
  reached := by
    apply Nat.le_antisymm
    · by_contra passed
      obtain ⟨next, isNext, notLater⟩ := le_breaksBefore_iff.mp (Nat.lt_of_not_le passed)
      obtain ⟨inside, rfl⟩ := List.getElem?_eq_some_iff.mp isStart
      obtain ⟨insideNext, rfl⟩ := List.getElem?_eq_some_iff.mp isNext
      have ordered := List.pairwise_iff_getElem.mp (lineStarts_ascending text) line (line + 1)
        inside insideNext (Nat.lt_succ_self line)
      exact Nat.not_lt_of_le notLater ordered
    · exact le_breaksBefore_iff.mpr ⟨start, isStart, Nat.le_refl start⟩
  first := by
    intro offset before
    by_contra notBefore
    obtain ⟨other, isOther, passed⟩ := le_breaksBefore_iff.mp (Nat.le_of_not_lt notBefore)
    cases isStart.symm.trans isOther
    omega

theorem LineBegins.le {other : Nat} (begins : LineBegins text line start)
    (otherBegins : LineBegins text line other) : start ≤ other := by
  by_contra later
  have before := begins.first other (Nat.lt_of_not_le later)
  exact Nat.ne_of_lt before otherBegins.reached

theorem LineBegins.unique {other : Nat} (begins : LineBegins text line start)
    (otherBegins : LineBegins text line other) : start = other :=
  Nat.le_antisymm (begins.le otherBegins) (otherBegins.le begins)

theorem getElem?_lineStarts_iff :
    (lineStarts text)[line]? = some start ↔ LineBegins text line start := by
  constructor
  · exact lineBegins_of_getElem?
  · intro begins
    obtain ⟨other, isOther, _⟩ := le_breaksBefore_iff.mp (Nat.le_of_eq begins.reached.symm)
    rw [isOther, begins.unique (lineBegins_of_getElem? isOther)]

/-- Every offset lies behind the start of its line. -/
theorem exists_lineBegins (text : List Char) (offset : Nat) :
    ∃ start ≤ offset, LineBegins text (breaksBefore text offset) start := by
  obtain ⟨start, isStart, before⟩ :=
    le_breaksBefore_iff.mp (Nat.le_refl (breaksBefore text offset))
  exact ⟨start, before, getElem?_lineStarts_iff.mp isStart⟩

/-! ## Lines and columns -/

theorem lineOf_eq (text : List Char) (offset : Nat) :
    lineOf text offset =
      if offset ≤ (encoded text).length ∧ breaksBefore text offset ≤ maxLine then
        (breaksBefore text offset : Int)
      else unknownLine := by
  rw [lineOf, byteSize_eq, length_takeWhile_lineStarts, Nat.add_sub_cancel]
  by_cases outside : (encoded text).length < offset
  · rw [if_pos outside, if_neg (by omega)]
  · rw [if_neg outside]
    simp only [Nat.le_of_not_lt outside, true_and]

/-- What is accepted is what lies on the line or before it, and the start of the next line. -/
theorem le_limit_iff :
    offset ≤ ((lineStarts text)[line + 1]?).getD (byteSize text) ↔
      offset ≤ (encoded text).length ∧ breaksBefore text offset ≤ line ∨
        LineBegins text (line + 1) offset := by
  have notReached : breaksBefore text offset ≤ line ↔ ¬ line + 1 ≤ breaksBefore text offset := by
    omega
  rw [notReached, le_breaksBefore_iff, ← getElem?_lineStarts_iff, byteSize_eq]
  cases isNext : (lineStarts text)[line + 1]? with
  | none => simp
  | some next =>
      have inside := (lineBegins_of_getElem? isNext).inside
      simp only [Option.getD_some, Option.some.injEq, exists_eq_left']
      omega

theorem wordSum_eq_ok_iff {left right sum : Nat} :
    wordSum left right = .ok sum ↔ left + right = sum ∧ sum < wordSize := by
  rw [wordSum]
  split
  next holds =>
    rw [Except.ok.injEq]
    exact ⟨fun isSum => ⟨isSum, isSum ▸ holds⟩, And.left⟩
  next tooLarge =>
    simp only [reduceCtorEq, false_iff, not_and]
    rintro rfl
    exact tooLarge

theorem wordSum_eq_error_iff {left right : Nat} :
    wordSum left right = .error {} ↔ wordSize ≤ left + right := by
  rw [wordSum]
  split
  next holds => simpa using holds
  next tooLarge => simpa using tooLarge

theorem offsetOf_eq_of_lineBegins (begins : LineBegins text line start) (column : Nat) :
    offsetOf text line column = (wordSum start column).map fun offset =>
      if offset ≤ ((lineStarts text)[line + 1]?).getD (byteSize text) then some offset
      else none := by
  rw [offsetOf, getElem?_lineStarts_iff.mpr begins]

/-- A line that a position can be asked for at all. -/
theorem lineBegins_of_offsetOf_ne {column : Nat} (isLine : offsetOf text line column ≠ .ok none) :
    ∃ start, LineBegins text line start := by
  rw [offsetOf] at isLine
  split at isLine
  next => exact absurd rfl isLine
  next start isStart => exact ⟨start, getElem?_lineStarts_iff.mp isStart⟩

theorem offsetOf_eq_some_iff :
    offsetOf text line column = .ok (some offset) ↔
      ∃ start, LineBegins text line start ∧ start + column = offset ∧ offset < wordSize ∧
        (offset ≤ (encoded text).length ∧ breaksBefore text offset ≤ line ∨
          LineBegins text (line + 1) offset) := by
  constructor
  · intro accepted
    have isLine : offsetOf text line column ≠ .ok none := by simp [accepted]
    obtain ⟨start, begins⟩ := lineBegins_of_offsetOf_ne isLine
    rw [offsetOf_eq_of_lineBegins begins] at accepted
    cases isSum : wordSum start column with
    | error =>
        rw [isSum] at accepted
        cases accepted
    | ok sum =>
        obtain ⟨rfl, small⟩ := wordSum_eq_ok_iff.mp isSum
        rw [isSum, Except.map, Except.ok.injEq, Option.ite_none_right_eq_some] at accepted
        obtain ⟨inside, isOffset⟩ := accepted
        cases isOffset
        exact ⟨start, begins, rfl, small, le_limit_iff.mp inside⟩
  · rintro ⟨start, begins, isSum, small, inside⟩
    rw [offsetOf_eq_of_lineBegins begins, wordSum_eq_ok_iff.mpr ⟨isSum, small⟩, Except.map,
      if_pos (le_limit_iff.mpr inside)]

/-- A position overflows if its line is there and the column is too large to be added. -/
theorem offsetOf_eq_error_iff :
    offsetOf text line column = .error {} ↔
      ∃ start, LineBegins text line start ∧ wordSize ≤ start + column := by
  constructor
  · intro overflows
    have isLine : offsetOf text line column ≠ .ok none := by simp [overflows]
    obtain ⟨start, begins⟩ := lineBegins_of_offsetOf_ne isLine
    rw [offsetOf_eq_of_lineBegins begins] at overflows
    refine ⟨start, begins, wordSum_eq_error_iff.mp ?_⟩
    cases isSum : wordSum start column with
    | error => rfl
    | ok sum =>
        rw [isSum] at overflows
        cases overflows
  · rintro ⟨start, begins, tooLarge⟩
    rw [offsetOf_eq_of_lineBegins begins, wordSum_eq_error_iff.mpr tooLarge]
    rfl

/-! ## Where a position leads -/

/-- A column leads to an offset of its line. -/
def OnLine (text : List Char) (line column offset : Nat) : Prop :=
  ∃ start, LineBegins text line start ∧ offset = start + column ∧
    offset ≤ (encoded text).length ∧ breaksBefore text offset = line

/-- A column leads past the line break of its line, to the start of the next line. -/
def Overruns (text : List Char) (line column offset : Nat) : Prop :=
  ∃ start, LineBegins text line start ∧ offset = start + column ∧
    LineBegins text (line + 1) offset

/-- A text that memory can hold, where sizes are signed machine words. -/
def Fits (text : List Char) : Prop :=
  (encoded text).length < 0x8000000000000000

instance (text : List Char) : Decidable (Fits text) :=
  inferInstanceAs (Decidable (_ < _))

theorem Fits.lt_wordSize (fits : Fits text) : (encoded text).length + 1 < wordSize := by
  unfold Fits at fits
  unfold wordSize
  omega

theorem LineBegins.line_lt_wordSize (begins : LineBegins text line start) (fits : Fits text) :
    line + 1 < wordSize := by
  have size := fits.lt_wordSize
  have bound := breaksBefore_le_length text start
  rw [begins.reached] at bound
  omega

theorem OnLine.unique {otherLine otherColumn : Nat} (onLine : OnLine text line column offset)
    (other : OnLine text otherLine otherColumn offset) :
    otherLine = line ∧ otherColumn = column := by
  obtain ⟨start, begins, isOffset, _, isLine⟩ := onLine
  obtain ⟨otherStart, otherBegins, isOther, _, isOtherLine⟩ := other
  have sameLine : otherLine = line := isOtherLine.symm.trans isLine
  subst sameLine
  have sameStart := begins.unique otherBegins
  omega

theorem onLine_of_lineBegins (inside : offset ≤ (encoded text).length)
    (begins : LineBegins text (breaksBefore text offset) start) (behind : start ≤ offset) :
    OnLine text (breaksBefore text offset) (offset - start) offset :=
  ⟨start, begins, by omega, inside, rfl⟩

theorem existsUnique_onLine (inside : offset ≤ (encoded text).length) :
    ∃! position : Nat × Nat, OnLine text position.1 position.2 offset := by
  obtain ⟨start, behind, begins⟩ := exists_lineBegins text offset
  have onLine := onLine_of_lineBegins inside begins behind
  refine ⟨(breaksBefore text offset, offset - start), onLine, ?_⟩
  intro position other
  obtain ⟨sameLine, sameColumn⟩ := onLine.unique other
  exact Prod.ext sameLine sameColumn

/-- A position is accepted in two ways. -/
theorem offsetOf_eq_some_iff_leads (fits : Fits text) :
    offsetOf text line column = .ok (some offset) ↔
      OnLine text line column offset ∨ Overruns text line column offset := by
  have size := fits.lt_wordSize
  rw [offsetOf_eq_some_iff]
  constructor
  · rintro ⟨start, begins, isOffset, _, ⟨inside, notPassed⟩ | next⟩
    · have passed := breaksBefore_mono text (isOffset ▸ Nat.le_add_right start column)
      rw [begins.reached] at passed
      exact .inl ⟨start, begins, isOffset.symm, inside, Nat.le_antisymm notPassed passed⟩
    · exact .inr ⟨start, begins, isOffset.symm, next⟩
  · rintro (⟨start, begins, rfl, inside, isLine⟩ | ⟨start, begins, rfl, next⟩)
    · exact ⟨start, begins, rfl, by omega, .inl ⟨inside, Nat.le_of_eq isLine⟩⟩
    · have inside := next.inside
      exact ⟨start, begins, rfl, by omega, .inr next⟩

/-- A position stays on its line: its offset is the start of the line plus the column, and
the line of that offset is the given one. -/
def KeepsLine (text : List Char) (line column offset : Nat) : Prop :=
  (∃ start, LineBegins text line start ∧ offset = start + column) ∧ lineOf text offset = line

theorem lineOf_eq_natCast_iff :
    lineOf text offset = line ↔
      offset ≤ (encoded text).length ∧ breaksBefore text offset = line ∧ line ≤ maxLine := by
  rw [lineOf_eq]
  constructor
  · intro isLine
    split at isLine
    next known =>
      have sameLine := Int.natCast_inj.mp isLine
      exact ⟨known.1, sameLine, sameLine ▸ known.2⟩
    next => exact absurd isLine (by unfold unknownLine; omega)
  · rintro ⟨inside, rfl, small⟩
    rw [if_pos ⟨inside, small⟩]

theorem keepsLine_iff :
    KeepsLine text line column offset ↔ OnLine text line column offset ∧ line ≤ maxLine := by
  rw [KeepsLine, lineOf_eq_natCast_iff]
  constructor
  · rintro ⟨⟨start, begins, isOffset⟩, inside, isLine, small⟩
    exact ⟨⟨start, begins, isOffset, inside, isLine⟩, small⟩
  · rintro ⟨⟨start, begins, isOffset, inside, isLine⟩, small⟩
    exact ⟨⟨start, begins, isOffset⟩, inside, isLine, small⟩

theorem Overruns.breaksBefore_eq (overruns : Overruns text line column offset) :
    breaksBefore text offset = line + 1 := by
  obtain ⟨start, _, _, next⟩ := overruns
  exact next.reached

end TypeTrace.Text
