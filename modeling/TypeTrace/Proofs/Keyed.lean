import Mathlib.Data.List.Induction

/-!
# Lists kept under keys

A list can hold one cell for each key.  What comes in under a key that is there changes the
cell of that key where it stands, and what comes in under a new key goes to the end.  After
any number of arrivals the keys stand in the order in which they first came in, and the cell
of each key has gathered what came in under it, in that order (`foldl_update`).

The keys are then the list of all keys that came in, without repetitions.
-/

namespace TypeTrace

/-! ## Lists without repetitions -/

section Repetitions

variable {α : Type} {alike other : α → α → Bool} {values : List α} {value : α}

theorem eraseDupsBy_loop_concat (values kept : List α) (last : α) :
    List.eraseDupsBy.loop alike (values ++ [last]) kept =
      if (List.eraseDupsBy.loop alike values kept).any (alike last) then
        List.eraseDupsBy.loop alike values kept
      else
        List.eraseDupsBy.loop alike values kept ++ [last] := by
  induction values generalizing kept with
  | nil =>
      cases repeated : kept.any (alike last) with
      | true => simp [List.eraseDupsBy.loop, repeated]
      | false => simp [List.eraseDupsBy.loop, repeated]
  | cons first rest ih =>
      cases repeated : kept.any (alike first) with
      | true => simpa [List.eraseDupsBy.loop, repeated] using ih kept
      | false => simpa [List.eraseDupsBy.loop, repeated] using ih (first :: kept)

theorem eraseDupsBy_concat (values : List α) (last : α) :
    (values ++ [last]).eraseDupsBy alike =
      if (values.eraseDupsBy alike).any (alike last) then
        values.eraseDupsBy alike
      else
        values.eraseDupsBy alike ++ [last] :=
  eraseDupsBy_loop_concat values [] last

theorem mem_of_mem_eraseDupsBy (member : value ∈ values.eraseDupsBy alike) :
    value ∈ values := by
  induction values using List.reverseRecOn with
  | nil => exact member
  | append_singleton before last ih =>
      rw [eraseDupsBy_concat] at member
      split at member
      next => exact List.mem_append_left _ (ih member)
      next =>
        rcases List.mem_append.mp member with earlier | isLast
        · exact List.mem_append_left _ (ih earlier)
        · exact List.mem_append_right _ isLast

/-- What is left out is like something that is kept. -/
theorem mem_eraseDupsBy_or_alike (member : value ∈ values) :
    value ∈ values.eraseDupsBy alike ∨ ∃ kept ∈ values.eraseDupsBy alike, alike value kept := by
  induction values using List.reverseRecOn with
  | nil => cases member
  | append_singleton before last ih =>
      rw [eraseDupsBy_concat]
      split
      next repeated =>
        rcases List.mem_append.mp member with earlier | isLast
        · exact ih earlier
        · rw [List.mem_singleton.mp isLast]
          exact .inr (List.any_eq_true.mp repeated)
      next =>
        rcases List.mem_append.mp member with earlier | isLast
        · rcases ih earlier with kept | ⟨found, kept, isAlike⟩
          · exact .inl (List.mem_append_left _ kept)
          · exact .inr ⟨found, List.mem_append_left _ kept, isAlike⟩
        · exact .inl (List.mem_append_right _ isLast)

/-- No two values that are kept are alike. -/
theorem eraseDupsBy_apart (values : List α) :
    (values.eraseDupsBy alike).Pairwise fun earlier later => alike later earlier = false := by
  induction values using List.reverseRecOn with
  | nil => exact .nil
  | append_singleton before last ih =>
      rw [eraseDupsBy_concat]
      split
      next => exact ih
      next isNew =>
        rw [Bool.not_eq_true, List.any_eq_false] at isNew
        apply List.pairwise_append.mpr
        refine ⟨ih, List.pairwise_singleton _ _, ?_⟩
        intro kept member other isLast
        rw [List.mem_singleton.mp isLast]
        simpa using isNew kept member

theorem eraseDupsBy_congr
    (agree : ∀ first ∈ values, ∀ second ∈ values, alike first second = other first second) :
    values.eraseDupsBy alike = values.eraseDupsBy other := by
  induction values using List.reverseRecOn with
  | nil => rfl
  | append_singleton before last ih =>
      have same := ih fun first isFirst second isSecond =>
        agree first (List.mem_append_left _ isFirst) second (List.mem_append_left _ isSecond)
      have sameTest : (before.eraseDupsBy other).any (alike last) =
          (before.eraseDupsBy other).any (other last) := by
        rw [Bool.eq_iff_iff, List.any_eq_true, List.any_eq_true]
        apply exists_congr
        intro kept
        apply and_congr_right
        intro member
        rw [agree last (List.mem_append_right _ List.mem_cons_self) kept
          (List.mem_append_left _ (mem_of_mem_eraseDupsBy member))]
      rw [eraseDupsBy_concat, eraseDupsBy_concat, same, sameTest]

theorem eraseDups_concat [BEq α] [LawfulBEq α] (values : List α) (last : α) :
    (values ++ [last]).eraseDups =
      if last ∈ values then values.eraseDups else values.eraseDups ++ [last] := by
  rw [List.eraseDups_append]
  by_cases repeated : last ∈ values
  · simp [List.removeAll, repeated]
  · simp [List.removeAll, repeated, List.eraseDups_cons]

theorem eraseDups_nodup [BEq α] [LawfulBEq α] (values : List α) :
    values.eraseDups.Nodup := by
  refine (eraseDupsBy_apart values).imp ?_
  rintro earlier _ differ rfl
  simp at differ

theorem eraseDups_filter [BEq α] [LawfulBEq α] (kept : α → Bool) (values : List α) :
    (values.filter kept).eraseDups = values.eraseDups.filter kept := by
  induction values using List.reverseRecOn with
  | nil => rfl
  | append_singleton before last ih =>
      rw [List.filter_append, eraseDups_concat]
      by_cases isKept : kept last = true
      · rw [List.filter_cons_of_pos isKept, List.filter_nil, eraseDups_concat, ih]
        by_cases repeated : last ∈ before
        · simp [repeated, isKept]
        · simp [repeated, isKept]
      · rw [List.filter_cons_of_neg isKept, List.filter_nil, List.append_nil, ih]
        split
        next => rfl
        next => simp [isKept]

end Repetitions

/-! ## Cells under keys -/

namespace Keyed

variable {α β κ : Type} [DecidableEq κ] {keyOf : β → κ} {keys : List κ} {cellOf : κ → β}
variable {key : κ}

/-- Cells after something has come in under a key. -/
def update (keyOf : β → κ) (key : κ) (fresh : β) (change : β → β) : List β → List β
  | [] => [fresh]
  | cell :: rest =>
      if keyOf cell = key then
        change cell :: rest
      else
        cell :: update keyOf key fresh change rest

theorem update_of_not_mem (keyed : ∀ key ∈ keys, keyOf (cellOf key) = key)
    (isNew : key ∉ keys) (fresh : β) (change : β → β) :
    update keyOf key fresh change (keys.map cellOf) = keys.map cellOf ++ [fresh] := by
  induction keys with
  | nil => rfl
  | cons first rest ih =>
      have restKeyed := fun key member => keyed key (List.mem_cons_of_mem first member)
      rw [List.mem_cons, not_or] at isNew
      rw [List.map_cons, update, keyed first List.mem_cons_self, if_neg (Ne.symm isNew.1),
        ih restKeyed isNew.2, List.cons_append]

theorem update_of_mem (keyed : ∀ key ∈ keys, keyOf (cellOf key) = key)
    (distinct : keys.Nodup) (known : key ∈ keys) (fresh : β) (change : β → β) :
    update keyOf key fresh change (keys.map cellOf) =
      keys.map fun other => if other = key then change (cellOf other) else cellOf other := by
  induction keys with
  | nil => cases known
  | cons first rest ih =>
      obtain ⟨absent, restDistinct⟩ := List.nodup_cons.mp distinct
      have restKeyed := fun key member => keyed key (List.mem_cons_of_mem first member)
      rw [List.map_cons, List.map_cons, update, keyed first List.mem_cons_self]
      by_cases isFirst : first = key
      · rw [if_pos isFirst, if_pos isFirst]
        congr 1
        apply List.map_congr_left
        intro other member
        have differs : other ≠ key := fun same => absent (isFirst ▸ same ▸ member)
        rw [if_neg differs]
      · rw [if_neg isFirst, if_neg isFirst,
          ih restKeyed restDistinct ((List.mem_cons.mp known).resolve_left (Ne.symm isFirst))]

/-- The cell of a key is found under it. -/
theorem find?_cell (keyed : ∀ key ∈ keys, keyOf (cellOf key) = key) (key : κ) :
    (keys.map cellOf).find? (keyOf · = key) = if key ∈ keys then some (cellOf key) else none := by
  induction keys with
  | nil => rfl
  | cons first rest ih =>
      have further := ih fun key member => keyed key (List.mem_cons_of_mem first member)
      rw [List.map_cons, List.find?_cons, keyed first List.mem_cons_self, further]
      by_cases isFirst : first = key
      · simp [isFirst]
      · simp [isFirst, Ne.symm isFirst]

theorem find?_of_mem (keyed : ∀ key ∈ keys, keyOf (cellOf key) = key) {cell : β}
    (member : cell ∈ keys.map cellOf) :
    (keys.map cellOf).find? (keyOf · = keyOf cell) = some cell := by
  obtain ⟨key, isKey, rfl⟩ := List.mem_map.mp member
  rw [keyed key isKey, find?_cell keyed, if_pos isKey]

/-- The values that came in under a key. -/
def under (keyFor : α → κ) (values : List α) (key : κ) : List α :=
  values.filter (keyFor · = key)

variable {keyFor : α → κ} {fresh : α → β} {change : α → β → β} {gather : κ → List α → β}
variable {values : List α}

theorem under_concat (keyFor : α → κ) (values : List α) (last : α) (key : κ) :
    under keyFor (values ++ [last]) key =
      if key = keyFor last then under keyFor values key ++ [last] else under keyFor values key := by
  by_cases same : keyFor last = key
  · simp [under, List.filter_append, same]
  · simp [under, List.filter_append, same, Ne.symm same]

theorem under_eq_nil : under keyFor values key = [] ↔ key ∉ values.map keyFor := by
  simp [under, List.filter_eq_nil_iff]

/-- What a cell is when the values that came in under its key are gathered in it. -/
structure Gathers (keyFor : α → κ) (keyOf : β → κ) (fresh : α → β) (change : α → β → β)
    (gather : κ → List α → β) : Prop where
  first : ∀ value, fresh value = gather (keyFor value) [value]
  next : ∀ values value, values ≠ [] →
    change value (gather (keyFor value) values) = gather (keyFor value) (values ++ [value])
  keyed : ∀ values value, keyOf (gather (keyFor value) (values ++ [value])) = keyFor value

theorem Gathers.keyOf_under (gathers : Gathers keyFor keyOf fresh change gather)
    (known : key ∈ values.map keyFor) : keyOf (gather key (under keyFor values key)) = key := by
  rcases List.eq_nil_or_concat (under keyFor values key) with isNil | ⟨before, last, isConcat⟩
  · exact absurd known (under_eq_nil.mp isNil)
  · have member : last ∈ under keyFor values key := by
      rw [isConcat, List.concat_eq_append]
      exact List.mem_concat_self
    have isKey : keyFor last = key := of_decide_eq_true (List.mem_filter.mp member).2
    rw [isConcat, List.concat_eq_append, ← isKey]
    exact gathers.keyed before last

/-- After any number of arrivals there is one cell for each key, in the order in which the
keys first came in, and each has gathered what came in under its key. -/
theorem foldl_update [BEq κ] [LawfulBEq κ]
    (gathers : Gathers keyFor keyOf fresh change gather) (values : List α) :
    values.foldl
        (fun cells value => update keyOf (keyFor value) (fresh value) (change value) cells) [] =
      (values.map keyFor).eraseDups.map fun key => gather key (under keyFor values key) := by
  induction values using List.reverseRecOn with
  | nil => rfl
  | append_singleton before last ih =>
      rw [List.foldl_append, List.foldl_cons, List.foldl_nil, ih, List.map_append,
        List.map_singleton, eraseDups_concat]
      have keyed : ∀ key ∈ (before.map keyFor).eraseDups,
          keyOf (gather key (under keyFor before key)) = key :=
        fun key member => gathers.keyOf_under (List.mem_eraseDups.mp member)
      by_cases known : keyFor last ∈ before.map keyFor
      · rw [if_pos known,
          update_of_mem keyed (eraseDups_nodup _) (List.mem_eraseDups.mpr known)]
        apply List.map_congr_left
        intro key member
        rw [under_concat]
        by_cases same : key = keyFor last
        · have nonempty : under keyFor before key ≠ [] := fun isNil =>
            under_eq_nil.mp isNil (List.mem_eraseDups.mp member)
          rw [if_pos same, if_pos same]
          subst same
          exact gathers.next _ last nonempty
        · rw [if_neg same, if_neg same]
      · have isNew : keyFor last ∉ (before.map keyFor).eraseDups := fun member =>
          known (List.mem_eraseDups.mp member)
        rw [if_neg known, update_of_not_mem keyed isNew, List.map_append, List.map_singleton,
          under_concat, if_pos rfl, under_eq_nil.mpr known, List.nil_append, gathers.first]
        congr 1
        apply List.map_congr_left
        intro key member
        have differs : key ≠ keyFor last := fun same => isNew (same ▸ member)
        rw [under_concat, if_neg differs]

end Keyed

end TypeTrace
