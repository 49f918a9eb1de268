import Mathlib.Algebra.BigOperators.Group.List.Lemmas
import Mathlib.Algebra.GroupWithZero.Nat
import TypeTrace.Proofs.Keyed
import TypeTrace.View.Summary

/-!
# Summaries of entries

A summary has one line for each trimmed label, in the order in which the labels first occur,
with the number of entries of that label and their lines (`ofEntries_eq`).  The summary of
two lists of entries, one after the other, is made from the summaries of the two.
-/

namespace TypeTrace.View

open TypeTrace.Flow

/-- The label under which an entry is counted. -/
def shownLabel (entry : Entry) : String :=
  Text.trimmed entry.label

/-- What there is to say about the entries of a label. -/
def statOf (entries : List Entry) (label : String) : TypeStat where
  count := entries.countP (shownLabel · = label)
  lines := (entries.filter (shownLabel · = label)).map (·.line)

/-- A type together with what another summary says about it. -/
def TypeStat.add (stat : TypeStat) : Option TypeStat → TypeStat
  | none => stat
  | some other => ⟨stat.count + other.count, stat.lines ++ other.lines⟩

theorem record_eq (label : String) (line : Int) (types : List (String × TypeStat)) :
    record label line types =
      Keyed.update (·.1) label (label, ⟨1, [line]⟩)
        (fun type => (type.1, ⟨type.2.count + 1, type.2.lines ++ [line]⟩)) types := by
  induction types with
  | nil => rfl
  | cons type rest ih => rw [record, Keyed.update, ih]

theorem statOf_append (entries others : List Entry) (label : String) :
    statOf (entries ++ others) label =
      ⟨(statOf entries label).count + (statOf others label).count,
        (statOf entries label).lines ++ (statOf others label).lines⟩ := by
  simp [statOf]

theorem statOf_of_not_mem {entries : List Entry} {label : String}
    (absent : label ∉ entries.map shownLabel) : statOf entries label = ⟨0, []⟩ := by
  have none : ∀ entry ∈ entries, shownLabel entry ≠ label := fun entry member same =>
    absent (List.mem_map.mpr ⟨entry, member, same⟩)
  simpa [statOf] using none

namespace TypeSummary

/-- The labels of a summary. -/
def labels (summary : TypeSummary) : List String :=
  summary.types.map (·.1)

/-- The types of one summary with what a second one adds to them, and then the types that
only the second one has. -/
def merge (first second : TypeSummary) : TypeSummary where
  types :=
    first.types.map (fun type => (type.1, type.2.add (second.get? type.1))) ++
      second.types.filter fun type => (first.get? type.1).isNone

/-! ## What is in a summary -/

theorem ofEntries_eq (entries : List Entry) :
    ofEntries entries =
      ⟨(entries.map shownLabel).eraseDups.map fun label => (label, statOf entries label)⟩ := by
  have gathers : Keyed.Gathers shownLabel (·.1)
      (fun entry => (shownLabel entry, (⟨1, [entry.line]⟩ : TypeStat)))
      (fun entry type => (type.1, ⟨type.2.count + 1, type.2.lines ++ [entry.line]⟩))
      (fun label members => (label, ⟨members.length, members.map (·.line)⟩)) :=
    ⟨fun _ => rfl, fun _ _ _ => by simp, fun _ _ => rfl⟩
  have folded := Keyed.foldl_update gathers entries
  simp only [ofEntries, record_eq, statOf, List.countP_eq_length_filter]
  exact congrArg TypeSummary.mk folded

theorem get?_ofEntries (entries : List Entry) (label : String) :
    (ofEntries entries).get? label =
      if label ∈ entries.map shownLabel then some (statOf entries label) else none := by
  rw [get?, ofEntries_eq]
  by_cases known : label ∈ entries.map shownLabel
  · rw [if_pos known]
    exact List.lookup_graph _ (List.mem_eraseDups.mpr known)
  · rw [if_neg known, List.lookup_eq_none_iff]
    intro type member
    obtain ⟨other, occurs, rfl⟩ := List.mem_map.mp member
    have differs : label ≠ other := fun same => known (same ▸ List.mem_eraseDups.mp occurs)
    simpa using differs

/-- Every entry is counted once. -/
theorem sum_count (entries : List Entry) :
    ((ofEntries entries).types.map (·.2.count)).sum = entries.length := by
  have counts (label : String) :
      (statOf entries label).count = (entries.map shownLabel).count label := by
    rw [statOf, List.count_eq_countP, List.countP_map]
    rfl
  have same : (entries.map shownLabel).eraseDups.Perm (entries.map shownLabel).dedup := by
    rw [List.perm_ext_iff_of_nodup (eraseDups_nodup _) (List.nodup_dedup _)]
    simp
  calc ((ofEntries entries).types.map (·.2.count)).sum
      = ((entries.map shownLabel).eraseDups.map ((entries.map shownLabel).count ·)).sum := by
        simp [ofEntries_eq, counts, Function.comp_def]
    _ = ((entries.map shownLabel).dedup.map ((entries.map shownLabel).count ·)).sum :=
        (same.map _).sum_eq
    _ = (entries.map shownLabel).length := List.sum_map_count_dedup_eq_length _
    _ = entries.length := List.length_map _

/-! ## Two lists of entries -/

theorem add_get?_ofEntries (entries others : List Entry) (label : String) :
    (statOf entries label).add ((ofEntries others).get? label) =
      statOf (entries ++ others) label := by
  rw [get?_ofEntries, statOf_append]
  split
  next => rfl
  next absent =>
    rw [statOf_of_not_mem absent, Nat.add_zero, List.append_nil]
    rfl

theorem ofEntries_append (entries others : List Entry) :
    ofEntries (entries ++ others) = (ofEntries entries).merge (ofEntries others) := by
  have isNew (label : String) :
      ((ofEntries entries).get? label).isNone = !(entries.map shownLabel).elem label := by
    rw [get?_ofEntries]
    by_cases known : label ∈ entries.map shownLabel
    · rw [if_pos known, List.elem_eq_true_of_mem known]
      rfl
    · rw [if_neg known, List.elem_eq_mem, decide_eq_false known]
      rfl
  have first : (ofEntries entries).types.map
      (fun type => (type.1, type.2.add ((ofEntries others).get? type.1))) =
      (entries.map shownLabel).eraseDups.map fun label =>
        (label, statOf (entries ++ others) label) := by
    simp only [ofEntries_eq entries, List.map_map, Function.comp_def, add_get?_ofEntries]
  have second : (ofEntries others).types.filter
      (fun type => ((ofEntries entries).get? type.1).isNone) =
      ((others.map shownLabel).removeAll (entries.map shownLabel)).eraseDups.map fun label =>
        (label, statOf (entries ++ others) label) := by
    rw [ofEntries_eq others, List.filter_map, List.removeAll, eraseDups_filter]
    simp only [Function.comp_def, isNew]
    apply List.map_congr_left
    intro label member
    have absent : label ∉ entries.map shownLabel := by
      simpa [List.elem_eq_mem] using (List.mem_filter.mp member).2
    rw [statOf_append, statOf_of_not_mem absent, Nat.zero_add, List.nil_append]
  rw [merge, first, second, ofEntries_eq, List.map_append, List.eraseDups_append,
    List.map_append]

/-- Nothing is lost and nothing is added: a summary lists the trimmed labels that occur, each
once and in the order in which they first occur, with the number of entries of the label and
their lines in the order of the entries.  So the counts add up to the number of entries, and
entries that follow others can be summarized on their own. -/
theorem ofEntries_summarizes (entries : List Entry) :
    (ofEntries entries).types = (entries.map shownLabel).eraseDups.map (fun label =>
        (label, ⟨entries.countP (shownLabel · = label),
          (entries.filter (shownLabel · = label)).map (·.line)⟩)) ∧
      (∀ label, (ofEntries entries).get? label =
        if label ∈ entries.map shownLabel then
          some ⟨entries.countP (shownLabel · = label),
            (entries.filter (shownLabel · = label)).map (·.line)⟩
        else none) ∧
      ((ofEntries entries).types.map (·.2.count)).sum = entries.length ∧
      ∀ others, ofEntries (entries ++ others) = (ofEntries entries).merge (ofEntries others) :=
  ⟨congrArg types (ofEntries_eq entries), get?_ofEntries entries, sum_count entries,
    ofEntries_append entries⟩

/-- Labels that differ only in the blanks around them are one label. -/
example :
    (ofEntries [⟨0, "int", default⟩, ⟨1, "str", default⟩, ⟨2, "\t int\u00a0", default⟩]).types =
      [("int", ⟨2, [0, 2]⟩), ("str", ⟨1, [1]⟩)] := by decide +kernel

end TypeSummary

end TypeTrace.View
