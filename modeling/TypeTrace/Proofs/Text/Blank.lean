import Mathlib.Data.List.DropRight
import TypeTrace.Text.Blank

/-!
# Trimming

A text is its trimmed form between two runs of blank characters, and the trimmed form has
no blank character at either end.  A text of which that holds is its own trimmed form, so
trimming a second time changes nothing.
-/

namespace TypeTrace.Text

/-- A text that neither begins nor ends with a blank character. -/
structure Tight (text : List Char) : Prop where
  front : ∀ character ∈ text.head?, isBlank character = false
  back : ∀ character ∈ text.getLast?, isBlank character = false

theorem trimEnd_eq (text : List Char) : trimEnd text = text.rdropWhile isBlank := rfl

theorem trimStart_of_front {text : List Char}
    (front : ∀ character ∈ text.head?, isBlank character = false) :
    trimStart text = text := by
  cases text with
  | nil => rfl
  | cons first rest =>
      apply List.dropWhile_cons_of_neg
      simp [front first rfl]

theorem trimEnd_of_back {text : List Char}
    (back : ∀ character ∈ text.getLast?, isBlank character = false) :
    trimEnd text = text := by
  rw [trimEnd_eq, List.rdropWhile_eq_self_iff]
  intro nonempty
  simp [back _ (List.getLast_mem_getLast? nonempty)]

/-- A text without blank characters at its ends is its own trimmed form. -/
theorem Tight.trim_eq {text : List Char} (tight : Tight text) : trim text = text := by
  rw [trim, trimStart_of_front tight.front, trimEnd_of_back tight.back]

theorem tight_trim (text : List Char) : Tight (trim text) where
  front := by
    intro character isFirst
    -- Only the end is cut off, so a trimmed text begins where the blanks in front end.
    obtain ⟨cutOff, isWhole⟩ : trim text <+: text.dropWhile isBlank :=
      List.rdropWhile_prefix _ _
    have notBlank := List.head?_dropWhile_not isBlank text
    rw [← isWhole, List.head?_append, isFirst] at notBlank
    exact notBlank
  back := by
    intro character isLast
    have nonempty : (trimStart text).rdropWhile isBlank ≠ [] := by
      intro isNil
      rw [trim, trimEnd_eq, isNil] at isLast
      cases isLast
    have notBlank := List.rdropWhile_last_not isBlank (trimStart text) nonempty
    rw [trim, trimEnd_eq, List.getLast?_eq_getLast_of_ne_nil nonempty] at isLast
    cases isLast
    simpa using notBlank

theorem trim_trim (text : List Char) : trim (trim text) = trim text :=
  (tight_trim text).trim_eq

/-- Trimming cuts off blank characters at the ends and nothing else. -/
theorem exists_blanks_around (text : List Char) :
    ∃ front back, text = front ++ trim text ++ back ∧
      (∀ character ∈ front, isBlank character = true) ∧
      ∀ character ∈ back, isBlank character = true := by
  refine ⟨text.takeWhile isBlank, (trimStart text).rtakeWhile isBlank, ?_, ?_, ?_⟩
  · rw [trim, trimEnd_eq, List.append_assoc, List.rdropWhile_append_rtakeWhile, trimStart,
      List.takeWhile_append_dropWhile]
  · intro character
    exact List.mem_takeWhile_imp
  · intro character
    exact List.mem_rtakeWhile_imp

theorem length_trim_le (text : List Char) : (trim text).length ≤ text.length := by
  obtain ⟨front, back, isText, _, _⟩ := exists_blanks_around text
  have lengths := congrArg List.length isText
  rw [List.length_append, List.length_append] at lengths
  omega

theorem count_trim {character : Char} (notBlank : isBlank character = false)
    (text : List Char) : (trim text).count character = text.count character := by
  obtain ⟨front, back, isText, blankFront, blankBack⟩ := exists_blanks_around text
  have notInFront : character ∉ front := by
    intro inFront
    cases notBlank.symm.trans (blankFront character inFront)
  have notInBack : character ∉ back := by
    intro inBack
    cases notBlank.symm.trans (blankBack character inBack)
  conv => rhs; rw [isText]
  rw [List.count_append, List.count_append, List.count_eq_zero_of_not_mem notInFront,
    List.count_eq_zero_of_not_mem notInBack, Nat.zero_add, Nat.add_zero]

theorem trim_cons_blank {blank : Char} (isSpace : isBlank blank = true) (text : List Char) :
    trim (blank :: text) = trim text := by
  rw [trim, trim, trimStart, List.dropWhile_cons_of_pos isSpace, trimStart]

theorem trim_concat_blank {blank : Char} (isSpace : isBlank blank = true)
    (text : List Char) : trim (text ++ [blank]) = trim text := by
  rw [trim, trim, trimStart, trimStart, List.dropWhile_append]
  cases remaining : text.dropWhile isBlank with
  | nil => simp [isSpace]
  | cons first rest =>
      exact List.rdropWhile_concat_pos isBlank (first :: rest) blank isSpace

end TypeTrace.Text
