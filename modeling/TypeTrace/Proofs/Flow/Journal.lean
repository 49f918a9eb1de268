import TypeTrace.Proofs.Flow.Forest
import TypeTrace.Proofs.Flow.Termination

/-!
# What is found under which entry

A journal is a plain account of events: it numbers the entries, keeps the numbers of the
open ones on a stack, and writes down each batch with the entry that is on top at the time.
It has no keys to look up and nothing it leaves out, so it can be held against a dependency
map.

Numbers are written down once (`Journal.Fair`), and events that close what they open leave
the stack as it was and never reach below it (`Nested.stack_suffix`).
-/

namespace TypeTrace.Flow

/-- Batches of numbers in the order of time, each with the entry it was found under. -/
abbrev Batches := List (Nat × List Nat)

/-- The batches that were found under an entry. -/
def Batches.under (batches : Batches) (key : Nat) : List (List Nat) :=
  (batches.filter (·.1 = key)).map (·.2)

/-- An account of some events. -/
structure Journal where
  /-- How many entries have a number. -/
  count : Nat
  /-- The numbers of the open entries, the last one entered first. -/
  stack : List Nat
  batches : Batches

/-- A batch with the entry on top of a stack.  An empty batch is none. -/
def foundUnder : (stack batch : List Nat) → Batches
  | top :: _, id :: rest => [(top, id :: rest)]
  | _, _ => []

namespace Journal

/-- Account for one more event. -/
def step (journal : Journal) : Event → Journal
  | .enter _ =>
      ⟨journal.count + 1, journal.count :: journal.stack,
        journal.batches ++ foundUnder journal.stack [journal.count]⟩
  | .emit batch =>
      ⟨journal.count + batch.length, journal.stack,
        journal.batches ++
          foundUnder journal.stack (List.range' journal.count batch.length)⟩
  | .exit => ⟨journal.count, journal.stack.tail, journal.batches⟩

end Journal

/-- The account of some events from the start. -/
def journal (reported : List Event) : Journal :=
  reported.foldl Journal.step ⟨0, [], []⟩

theorem journal_append (before after : List Event) :
    journal (before ++ after) = after.foldl Journal.step (journal before) := by
  simp [journal]

theorem journal_concat (before : List Event) (event : Event) :
    journal (before ++ [event]) = (journal before).step event := by
  simp [journal_append]

theorem mem_foundUnder {stack batch ids : List Nat} {key : Nat} :
    (key, ids) ∈ foundUnder stack batch ↔
      stack.head? = some key ∧ ids = batch ∧ batch ≠ [] := by
  cases stack with
  | nil => simp [foundUnder]
  | cons top rest =>
      cases batch with
      | nil => simp [foundUnder]
      | cons id more => simp [foundUnder, eq_comm]

namespace Batches

variable {batches : Batches} {key : Nat} {batch : List Nat}

theorem mem_under : batch ∈ batches.under key ↔ (key, batch) ∈ batches := by
  simp only [under, List.mem_map, List.mem_filter, decide_eq_true_eq, Prod.exists]
  constructor
  · rintro ⟨_, _, ⟨member, rfl⟩, rfl⟩
    exact member
  · intro member
    exact ⟨key, batch, ⟨member, rfl⟩, rfl⟩

theorem under_eq_nil : batches.under key = [] ↔ key ∉ batches.map (·.1) := by
  rw [under, List.map_eq_nil_iff, List.filter_eq_nil_iff]
  simp only [decide_eq_true_eq, List.mem_map, not_exists, not_and]

theorem under_concat_self :
    Batches.under (batches ++ [(key, batch)]) key = batches.under key ++ [batch] := by
  simp [under]

theorem under_concat_other {top : Nat} (differs : key ≠ top) :
    Batches.under (batches ++ [(top, batch)]) key = batches.under key := by
  simp [under, differs.symm]

end Batches

namespace Journal

variable {journal : Journal} {event : Event}

/-! ## Numbers are written down once -/

/-- What is known of the numbers in a journal: they have been given out, those of a batch
after that of the entry they were found under, and none stands in two places. -/
structure Fair (journal : Journal) : Prop where
  stack : ∀ id ∈ journal.stack, id < journal.count
  batches : ∀ pair ∈ journal.batches, ∀ id ∈ pair.2, pair.1 < id ∧ id < journal.count
  sole : ∀ first ∈ journal.batches, ∀ second ∈ journal.batches,
    ∀ id ∈ first.2, id ∈ second.2 → first = second

namespace Fair

theorem start : Fair ⟨0, [], []⟩ := by
  constructor
  · intro id member
    cases member
  · intro pair member
    cases member
  · intro pair member
    cases member

/-- New numbers may be written down under the entry on top of the stack. -/
theorem record (fair : Fair journal) (amount : Nat) :
    Fair ⟨journal.count + amount, journal.stack, journal.batches ++
      foundUnder journal.stack (List.range' journal.count amount)⟩ where
  stack := by
    intro id member
    have bound := fair.stack id member
    simp only
    omega
  batches := by
    rintro ⟨key, ids⟩ member id isId
    rcases List.mem_append.mp member with before | isNew
    · have bounds := fair.batches _ before id isId
      simp only at bounds ⊢
      omega
    · obtain ⟨isTop, rfl, _⟩ := mem_foundUnder.mp isNew
      have bound := fair.stack key (List.mem_of_mem_head? isTop)
      simp only [List.mem_range'_1] at isId ⊢
      omega
  sole := by
    -- A number of the new batch is too high to stand in an old one.
    have apart {old ids : List Nat} {key other id : Nat}
        (before : (key, old) ∈ journal.batches) (isId : id ∈ old)
        (isNew : (other, ids) ∈
          foundUnder journal.stack (List.range' journal.count amount))
        (isNewId : id ∈ ids) : False := by
      obtain ⟨_, rfl, _⟩ := mem_foundUnder.mp isNew
      have bound := (fair.batches _ before id isId).2
      simp only [List.mem_range'_1] at isNewId
      omega
    rintro ⟨key, ids⟩ member ⟨other, others⟩ memberOther id isId isOther
    rcases List.mem_append.mp member with before | isNew
    · rcases List.mem_append.mp memberOther with beforeOther | isNewOther
      · exact fair.sole _ before _ beforeOther id isId isOther
      · exact (apart before isId isNewOther isOther).elim
    · rcases List.mem_append.mp memberOther with beforeOther | isNewOther
      · exact (apart beforeOther isOther isNew isId).elim
      · obtain ⟨isTop, rfl, _⟩ := mem_foundUnder.mp isNew
        obtain ⟨isTopOther, rfl, _⟩ := mem_foundUnder.mp isNewOther
        cases isTop.symm.trans isTopOther
        rfl

theorem step (fair : Fair journal) (event : Event) : Fair (journal.step event) := by
  cases event with
  | enter entry =>
      have recorded := fair.record 1
      refine { recorded with stack := ?_ }
      intro id member
      rcases List.mem_cons.mp member with rfl | member
      · exact Nat.lt_succ_self _
      · exact recorded.stack id member
  | emit batch => exact fair.record batch.length
  | exit =>
      refine { fair with stack := ?_ }
      intro id member
      exact fair.stack id (List.mem_of_mem_tail member)

end Fair

end Journal

theorem journal_fair (reported : List Event) : (journal reported).Fair := by
  induction reported using List.reverseRecOn with
  | nil => exact .start
  | append_singleton before event ih =>
      rw [journal_concat]
      exact ih.step event

theorem journal_count (reported : List Event) :
    (journal reported).count = (arena reported).length := by
  induction reported using List.reverseRecOn with
  | nil => rfl
  | append_singleton before event ih =>
      rw [journal_concat, arena_append, List.length_append, ← ih]
      cases event with
      | enter entry => rfl
      | emit batch => simp [Journal.step, arena, Event.numbered]
      | exit => rfl

/-! ## The stack of nested events -/

theorem Nested.stack_eq {inner : List Event} (nested : Nested inner) (start : Journal) :
    (inner.foldl Journal.step start).stack = start.stack := by
  induction nested generalizing start with
  | done => rfl
  | emit _ ih => exact ih _
  | @enclose entry inner rest _ _ insideIH afterIH =>
      rw [List.foldl_cons, List.foldl_append, List.foldl_cons, afterIH]
      simp only [Journal.step, insideIH, List.tail_cons]

/-- In the middle of nested events, what was open at their start still is. -/
theorem Nested.stack_suffix {inner before : List Event} (nested : Nested inner)
    (start : Journal) (isPrefix : before <+: inner) :
    start.stack <:+ (before.foldl Journal.step start).stack := by
  induction nested generalizing start before with
  | done =>
      cases List.prefix_nil.mp isPrefix
      exact List.suffix_rfl
  | @emit batch rest _ ih =>
      rcases List.prefix_cons_iff.mp isPrefix with rfl | ⟨later, rfl, within⟩
      · exact List.suffix_rfl
      · exact ih (start.step (.emit batch)) within
  | @enclose entry inner rest inside _ insideIH afterIH =>
      rcases List.prefix_cons_iff.mp isPrefix with rfl | ⟨later, rfl, within⟩
      · exact List.suffix_rfl
      rw [List.foldl_cons]
      have opened : start.stack <:+ (start.step (.enter entry)).stack :=
        List.suffix_cons _ _
      -- The events end before the entry is left, or some of the rest is among them.
      rcases List.prefix_or_prefix_of_prefix within (List.prefix_append inner _) with
        early | ⟨more, rfl⟩
      · exact opened.trans (insideIH _ early)
      · have rejoined := inside.stack_eq (start.step (.enter entry))
        rw [List.prefix_append_right_inj] at within
        rw [List.foldl_append]
        rcases List.prefix_cons_iff.mp within with rfl | ⟨others, rfl, later⟩
        · rw [List.foldl_nil, rejoined]
          exact opened
        · rw [List.foldl_cons]
          have left : ((inner.foldl Journal.step (start.step (.enter entry))).step
              .exit).stack = start.stack := by
            simp only [Journal.step] at rejoined ⊢
            rw [rejoined, List.tail_cons]
          rw [← left]
          exact afterIH _ later

/-- While a resolution goes on, something is open. -/
theorem stack_ne_nil {entry : Entry} {inner before : List Event} (nested : Nested inner)
    (isPrefix : before <+: .enter entry :: inner) (begun : before ≠ []) :
    (journal before).stack ≠ [] := by
  rcases List.prefix_cons_iff.mp isPrefix with rfl | ⟨later, rfl, within⟩
  · exact absurd rfl begun
  · have suffix := nested.stack_suffix ((⟨0, [], []⟩ : Journal).step (.enter entry)) within
    intro empty
    have same : (journal (.enter entry :: later)).stack =
        (later.foldl Journal.step ((⟨0, [], []⟩ : Journal).step (.enter entry))).stack := rfl
    rw [← same, empty] at suffix
    cases List.suffix_nil.mp suffix

end TypeTrace.Flow
