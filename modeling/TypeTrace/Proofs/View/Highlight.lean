import TypeTrace.Flow.Resolve
import TypeTrace.Oracle.Builtin
import TypeTrace.Proofs.View.Summary

/-!
# Highlighting a chosen type

A type is chosen by its label or by its item in the list, and what is chosen is cut off at its
first ` (`.  For a label without ` (` both ways lead to the lines of its entries.  A label with
` (` is cut off as well, so both ways lead to the lines of a different label, the front of the
chosen one, and to no line if the front is no label.
-/

namespace TypeTrace.View

open TypeTrace.Flow

/-- The lines on which a label occurs, as far as they are known. -/
def knownLines (entries : List Entry) (label : String) : List Nat :=
  (entries.filter (shownLabel · = label)).filterMap fun entry => entry.line.toNat?

/-- A parenthesis stands right behind a space. -/
def HasParenthesis (text : List Char) : Prop :=
  [' ', '('] <:+: text

/-- The first parenthesis that stands right behind a space has `front` before that space. -/
structure FirstParenthesis (text front : List Char) : Prop where
  stands : ∃ back, text = front ++ ' ' :: '(' :: back
  first : ¬ HasParenthesis front

/-! ## Where a text is cut off -/

theorem hasParenthesis_cons {character : Char} {rest : List Char} :
    HasParenthesis (character :: rest) ↔
      (character = ' ' ∧ rest.head? = some '(') ∨ HasParenthesis rest := by
  rw [HasParenthesis, HasParenthesis, List.infix_cons_iff, List.cons_prefix_cons]
  cases rest with
  | nil => simp
  | cons second others => simp [eq_comm]

theorem beforeParenthesis_cons {character : Char} {rest : List Char}
    (goesOn : ¬ (character = ' ' ∧ rest.head? = some '(')) :
    beforeParenthesis (character :: rest) = character :: beforeParenthesis rest := by
  rw [beforeParenthesis]
  rintro back rfl rfl
  exact goesOn ⟨rfl, rfl⟩

theorem beforeParenthesis_of_plain {text : List Char} (plain : ¬ HasParenthesis text) :
    beforeParenthesis text = text := by
  induction text with
  | nil => rfl
  | cons character rest ih =>
      rw [hasParenthesis_cons, not_or] at plain
      rw [beforeParenthesis_cons plain.1, ih plain.2]

namespace FirstParenthesis

variable {text front : List Char}

theorem beforeParenthesis_eq (cut : FirstParenthesis text front) :
    beforeParenthesis text = front := by
  obtain ⟨⟨back, rfl⟩, first⟩ := cut
  induction front with
  | nil => rfl
  | cons character rest ih =>
      rw [hasParenthesis_cons, not_or] at first
      -- The space that follows the front is no parenthesis.
      have goesOn :
          ¬ (character = ' ' ∧ (rest ++ ' ' :: '(' :: back).head? = some '(') := by
        cases rest with
        | nil => simp
        | cons second others => exact first.1
      rw [List.cons_append, beforeParenthesis_cons goesOn, ih first.2]

theorem ne (cut : FirstParenthesis text front) : front ≠ text := by
  rintro rfl
  obtain ⟨back, same⟩ := cut.stands
  simp at same

theorem append (cut : FirstParenthesis text front) (more : List Char) :
    FirstParenthesis (text ++ more) front := by
  obtain ⟨back, rfl⟩ := cut.stands
  exact ⟨⟨back ++ more, by simp⟩, cut.first⟩

end FirstParenthesis

theorem exists_firstParenthesis {text : List Char} (opens : HasParenthesis text) :
    ∃ front, FirstParenthesis text front := by
  induction text with
  | nil => simp [HasParenthesis] at opens
  | cons character rest ih =>
      by_cases here : character = ' ' ∧ rest.head? = some '('
      · obtain ⟨rfl, isNext⟩ := here
        obtain ⟨back, rfl⟩ := List.head?_eq_some_iff.mp isNext
        exact ⟨[], ⟨back, rfl⟩, by simp [HasParenthesis]⟩
      · obtain ⟨front, ⟨back, rfl⟩, first⟩ :=
          ih ((hasParenthesis_cons.mp opens).resolve_left here)
        refine ⟨character :: front, ⟨back, rfl⟩, ?_⟩
        rw [hasParenthesis_cons, not_or]
        refine ⟨?_, first⟩
        rintro ⟨isSpace, isNext⟩
        apply here
        rw [List.head?_append, isNext]
        exact ⟨isSpace, rfl⟩

/-! ## What is highlighted -/

namespace TypeSummary

theorem knownLines_eq (entries : List Entry) (label : String) :
    knownLines entries label = (statOf entries label).lines.filterMap Int.toNat? := by
  rw [knownLines, statOf, List.filterMap_map]
  rfl

theorem highlightLines_ofEntries (entries : List Entry) (selection : String) :
    (ofEntries entries).highlightLines selection =
      knownLines entries (String.ofList (beforeParenthesis selection.toList)) := by
  rw [highlightLines, get?_ofEntries, knownLines_eq]
  by_cases known : String.ofList (beforeParenthesis selection.toList) ∈ entries.map shownLabel
  · rw [if_pos known]
  · rw [if_neg known, statOf_of_not_mem known]
    rfl

theorem highlightLines_of_plain (entries : List Entry) {selection : String}
    (plain : ¬ HasParenthesis selection.toList) :
    (ofEntries entries).highlightLines selection = knownLines entries selection := by
  rw [highlightLines_ofEntries, beforeParenthesis_of_plain plain, String.ofList_toList]

theorem highlightLines_of_cut (entries : List Entry) {selection front : String}
    (cut : FirstParenthesis selection.toList front.toList) :
    (ofEntries entries).highlightLines selection = knownLines entries front := by
  rw [highlightLines_ofEntries, cut.beforeParenthesis_eq, String.ofList_toList]

/-- Choosing a type by its label or by its item highlights the lines of its entries. -/
structure Highlights (entries : List Entry) (label item : String) : Prop where
  byLabel : (ofEntries entries).highlightLines label = knownLines entries label
  byItem : (ofEntries entries).highlightLines item = knownLines entries label

/-- The item at a place of a summary has the label, and a parenthesis behind a space. -/
theorem exists_item {summary : TypeSummary} {place : Nat} {label : String}
    (shown : summary.labels[place]? = some label) :
    ∃ item, summary.items[place]? = some item ∧
      ∃ back, item.toList = label.toList ++ ' ' :: '(' :: back := by
  rw [labels, List.getElem?_map] at shown
  obtain ⟨type, isType, rfl⟩ := Option.map_eq_some_iff.mp shown
  rw [items, List.getElem?_map, isType]
  exact ⟨_, rfl, (toString type.2.count).toList ++ " occurrences)".toList, by simp⟩

theorem highlights_of_plain (entries : List Entry) {label item : String}
    (isItem : ∃ back, item.toList = label.toList ++ ' ' :: '(' :: back)
    (plain : ¬ HasParenthesis label.toList) : Highlights entries label item where
  byLabel := highlightLines_of_plain entries plain
  byItem := highlightLines_of_cut entries ⟨isItem, plain⟩

theorem highlightLines_item_of_cut (entries : List Entry) {label item front : String}
    (isItem : ∃ back, item.toList = label.toList ++ ' ' :: '(' :: back)
    (cut : FirstParenthesis label.toList front.toList) :
    (ofEntries entries).highlightLines item = knownLines entries front := by
  obtain ⟨back, behind⟩ := isItem
  apply highlightLines_of_cut
  rw [behind]
  exact cut.append _

theorem highlights_iff (entries : List Entry) {label item : String}
    (isItem : ∃ back, item.toList = label.toList ++ ' ' :: '(' :: back) :
    Highlights entries label item ↔
      ∀ front : String, FirstParenthesis label.toList front.toList →
        knownLines entries front = knownLines entries label := by
  constructor
  · intro highlights front cut
    exact (highlightLines_of_cut entries cut).symm.trans highlights.byLabel
  · intro sameLines
    by_cases opens : HasParenthesis label.toList
    · obtain ⟨front, cut⟩ := exists_firstParenthesis opens
      rw [← String.toList_ofList (l := front)] at cut
      have same := sameLines _ cut
      exact ⟨(highlightLines_of_cut entries cut).trans same,
        (highlightLines_item_of_cut entries isItem cut).trans same⟩
    · exact highlights_of_plain entries isItem opens

/-- For every list of entries and every label of its summary, the label and its item lead to
the same lines.  They are the lines of the label unless it has a parenthesis behind a space,
and then they are the lines of the label that is cut off there, which is a different one.  So
they are right exactly where the two labels have the same lines. -/
theorem highlightLines_by_front (entries : List Entry) (place : Nat) (label : String)
    (shown : (ofEntries entries).labels[place]? = some label) :
    ∃ item, (ofEntries entries).items[place]? = some item ∧
      (¬ HasParenthesis label.toList → Highlights entries label item) ∧
      (∀ front : String, FirstParenthesis label.toList front.toList →
        front ≠ label ∧
        (ofEntries entries).highlightLines label = knownLines entries front ∧
        (ofEntries entries).highlightLines item = knownLines entries front) ∧
      (Highlights entries label item ↔
        ∀ front : String, FirstParenthesis label.toList front.toList →
          knownLines entries front = knownLines entries label) := by
  obtain ⟨item, isItem, behind⟩ := exists_item shown
  refine ⟨item, isItem, highlights_of_plain entries behind, ?_, highlights_iff entries behind⟩
  intro front cut
  refine ⟨?_, highlightLines_of_cut entries cut, highlightLines_item_of_cut entries behind cut⟩
  rintro rfl
  exact cut.ne rfl

/-- The parameter of a function whose hint is a call, with a space in it:
```
def f(x: A (int)):
    pass
``` -/
def spacedParameter : Syntax.Parameter Syntax.Expr :=
  ⟨⟨6, 16⟩, .positional, "x",
    some (.call ⟨9, 16⟩ (.name ⟨9, 10⟩ "A" .load) [.name ⟨12, 15⟩ "int" .load] [])⟩

/-- The unit with the function. -/
def spacedUnit : SourceUnit where
  path := "m.py"
  text := "def f(x: A (int)):\n    pass\n".toList
  suite := [
    .functionDef ⟨0, 27⟩ false "f" [⟨spacedParameter, none⟩] none []
      [.simple ⟨23, 27⟩ .pass]]

/-- What is found at the parameter. -/
def spacedEntry : Entry :=
  ⟨0, "A (int)", .param spacedParameter⟩

/-- The same with an entry of another label on the next line. -/
def spacedEntries : List Entry :=
  [spacedEntry, ⟨1, "A ", .param spacedParameter⟩]

/-- The label `A (int)` is on the first line and leads to the line of the label `A`. -/
theorem spaced_misled :
    (ofEntries spacedEntries).labels[0]? = some "A (int)" ∧
      ∃ item, (ofEntries spacedEntries).items[0]? = some item ∧
        (ofEntries spacedEntries).highlightLines "A (int)" = [1] ∧
        (ofEntries spacedEntries).highlightLines item = [1] := by
  have shown : (ofEntries spacedEntries).labels[0]? = some "A (int)" := by decide +kernel
  obtain ⟨item, isItem, _, cutOff, _⟩ := highlightLines_by_front _ 0 "A (int)" shown
  have cut : FirstParenthesis "A (int)".toList "A".toList := by
    refine ⟨⟨"int)".toList, by decide +kernel⟩, ?_⟩
    rw [HasParenthesis]
    decide +kernel
  have lines : knownLines spacedEntries "A" = [1] := by decide +kernel
  obtain ⟨_, byLabel, byItem⟩ := cutOff "A" cut
  exact ⟨shown, item, isItem, byLabel.trans lines, byItem.trans lines⟩

/-- The only type of the parameter is on the first line, and nothing is highlighted. -/
theorem spaced_not_highlighted :
    resolveFlat ⟨[spacedUnit]⟩ Builtin.oracle {} ⟨"m.py", 6⟩ = .ok [spacedEntry] ∧
      (ofEntries [spacedEntry]).labels = ["A (int)"] ∧
      (ofEntries [spacedEntry]).items = ["A (int) (1 occurrences)"] ∧
      knownLines [spacedEntry] "A (int)" = [0] ∧
      (ofEntries [spacedEntry]).highlightLines "A (int)" = [] ∧
      (ofEntries [spacedEntry]).highlightLines "A (int) (1 occurrences)" = [] ∧
      ¬ Highlights [spacedEntry] "A (int)" "A (int) (1 occurrences)" := by
  have lines : knownLines [spacedEntry] "A (int)" = [0] := by decide +kernel
  have unlit : (ofEntries [spacedEntry]).highlightLines "A (int)" = [] := by decide +kernel
  refine ⟨by with_unfolding_all rfl, by decide +kernel, by decide +kernel, lines, unlit,
    by decide +kernel, ?_⟩
  intro highlights
  cases unlit.symm.trans (highlights.byLabel.trans lines)

end TypeSummary

end TypeTrace.View
