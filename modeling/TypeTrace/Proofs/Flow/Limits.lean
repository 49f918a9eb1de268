import Mathlib.Data.List.Flatten
import TypeTrace.Oracle.Builtin
import TypeTrace.Proofs.Flow.Anchor
import TypeTrace.Proofs.Flow.Termination

/-!
# Resolutions under a wider limit

A limit cuts every union to its first members.  Under a wider one, or under none, each
piece of evidence keeps the labels it has and may get more behind them; evidence that has a
label under one limit has a label under every other (`Trims`).  The search is the same, so
this goes for the whole list of types.
-/

namespace TypeTrace.Flow

open Syntax TypeTrace.Types

/-- What is left of a list when elements are taken out, though not all of them. -/
structure Trims {α : Type} (few many : List α) : Prop where
  sublist : few.Sublist many
  empty : few = [] ↔ many = []

namespace Trims

variable {α β : Type} {few many : List α}

theorem refl (values : List α) : Trims values values :=
  ⟨List.Sublist.refl values, Iff.rfl⟩

theorem map (trims : Trims few many) (image : α → β) :
    Trims (few.map image) (many.map image) where
  sublist := trims.sublist.map image
  empty := by
    rw [List.map_eq_nil_iff, List.map_eq_nil_iff]
    exact trims.empty

theorem flatMap {small large : α → List β} {values : List α}
    (each : ∀ value ∈ values, Trims (small value) (large value)) :
    Trims (values.flatMap small) (values.flatMap large) where
  sublist := List.Sublist.flatMap_right values fun value member =>
    (each value member).sublist
  empty := by
    rw [List.flatMap_eq_nil_iff, List.flatMap_eq_nil_iff]
    exact forall₂_congr fun value member => (each value member).empty

/-- A positive number of first elements is trimmed from any larger number of them. -/
theorem capped {tight loose : ResolverConfig} (positive : 1 ≤ tight.maxUnionMembers)
    (wider : tight.maxUnionMembers ≤ loose.maxUnionMembers ∨ loose.maxUnionMembers = 0)
    (values : List α) :
    Trims (Types.capped tight.unionLimit values) (Types.capped loose.unionLimit values) := by
  have bounded : tight.unionLimit = some tight.maxUnionMembers :=
    if_neg (Nat.ne_of_gt positive)
  rw [bounded]
  by_cases unlimited : loose.maxUnionMembers = 0
  · rw [ResolverConfig.unionLimit, if_pos unlimited]
    refine ⟨List.take_sublist _ values, ?_⟩
    rw [Types.capped, Types.capped, List.take_eq_nil_iff]
    exact or_iff_right (Nat.ne_of_gt positive)
  · have le := wider.resolve_right unlimited
    rw [ResolverConfig.unionLimit, if_neg unlimited]
    refine ⟨(List.take_prefix_take_left le).sublist, ?_⟩
    rw [Types.capped, Types.capped, List.take_eq_nil_iff, List.take_eq_nil_iff]
    exact or_congr_left (iff_of_false (Nat.ne_of_gt positive) unlimited)

end Trims

section Limits

variable {oracle : Oracle} {unit : SourceUnit} {tight loose : Option Nat}

/-! ## Evidence -/

theorem Evidence.labels_trims
    (cut : ∀ values : List String, Trims (capped tight values) (capped loose values))
    (evidence : Evidence) :
    Trims (evidence.labels oracle tight unit) (evidence.labels oracle loose unit) := by
  cases evidence with
  | hint node text => exact cut _
  | nothing node => exact .refl _
  | value expression =>
      simp only [Evidence.labels]
      cases oracle unit expression with
      | none => exact .refl _
      | some type =>
          -- Each name of a union is cut on its own.
          exact .flatMap fun name _ => cut _

theorem Evidence.batch_trims
    (cut : ∀ values : List String, Trims (capped tight values) (capped loose values))
    (evidence : Evidence) :
    Trims (evidence.batch oracle tight unit) (evidence.batch oracle loose unit) :=
  (evidence.labels_trims cut).map _

/-! ## Searches -/

/-- The entries of what a step finds. -/
def Step.entries (oracle : Oracle) (limit : Option Nat) (unit : SourceUnit) :
    Step → List Entry
  | .found evidence => evidence.batch oracle limit unit
  | _ => []

theorem flatEntries_reports {limit : Option Nat} (steps : List Step) :
    flatEntries (reports oracle limit unit steps) =
      steps.flatMap (Step.entries oracle limit unit) := by
  induction steps with
  | nil => rfl
  | cons step rest ih =>
      rw [List.flatMap_cons, ← ih]
      cases step with
      | enter entry => rfl
      | exit => rfl
      | found evidence =>
          cases isBatch : evidence.batch oracle limit unit with
          | nil => simp [reports, Step.event?, Step.entries, isBatch]
          | cons first more =>
              simp [reports, Step.event?, Step.entries, isBatch, flatEntries, Event.entries]

theorem flatEntries_trims
    (cut : ∀ values : List String, Trims (capped tight values) (capped loose values))
    (steps : List Step) :
    Trims (flatEntries (reports oracle tight unit steps))
      (flatEntries (reports oracle loose unit steps)) := by
  rw [flatEntries_reports, flatEntries_reports]
  refine .flatMap ?_
  intro step _
  cases step with
  | enter entry => exact .refl _
  | exit => exact .refl _
  | found evidence => exact evidence.batch_trims cut

end Limits

/-- For every project, oracle and anchor, a resolution fails for want of an element under any
configuration; otherwise what it finds under a positive limit is found in the same order
under a wider limit or none, and something is found under one if it is under the other. -/
theorem resolveFlat_trims (project : Project) (oracle : Oracle) (anchor : Anchor)
    {tight loose : ResolverConfig} (positive : 1 ≤ tight.maxUnionMembers)
    (wider : tight.maxUnionMembers ≤ loose.maxUnionMembers ∨ loose.maxUnionMembers = 0) :
    (∃ error, locateAnchor project anchor = .error error ∧
      resolveFlat project oracle tight anchor = .error error ∧
      resolveFlat project oracle loose anchor = .error error) ∨
    (∃ few many, resolveFlat project oracle tight anchor = .ok few ∧
      resolveFlat project oracle loose anchor = .ok many ∧
      few.Sublist many ∧ (few = [] ↔ many = [])) := by
  cases located : locateAnchor project anchor with
  | error error =>
      have failed (config : ResolverConfig) :
          resolveFlat project oracle config anchor = .error error := by
        simp [resolveFlat, eventsAt, located, bind, Except.bind, Except.map]
      exact .inl ⟨error, rfl, failed tight, failed loose⟩
  | ok place =>
      obtain ⟨unit, element⟩ := place
      have trims := @flatEntries_trims oracle unit _ _ (Trims.capped positive wider)
        (trace unit element)
      exact .inr ⟨_, _, resolveFlat_of_located located oracle tight,
        resolveFlat_of_located located oracle loose, trims.sublist, trims.empty⟩

/-! ## A hint with three members -/

/-- A parameter with a union for a hint:
```
def f(p: int | str | None):
    pass
``` -/
def hinted : SourceUnit where
  path := "m.py"
  text := "def f(p: int | str | None):\n    pass\n".toList
  suite := [
    .functionDef ⟨0, 36⟩ false "f"
      [⟨⟨⟨6, 25⟩, .positional, "p", some (.binOp ⟨9, 25⟩
        (.binOp ⟨9, 18⟩ (.name ⟨9, 12⟩ "int" .load) .bitOr (.name ⟨15, 18⟩ "str" .load))
        .bitOr (.constant ⟨21, 25⟩ .none))⟩, none⟩] none []
      [.simple ⟨32, 36⟩ .pass]]

/-- One member is found under the limit one, and all three without a limit. -/
theorem hinted_trims :
    ∃ few many, resolveFlat ⟨[hinted]⟩ Builtin.oracle ⟨1, .all⟩ ⟨"m.py", 6⟩ = .ok few ∧
      resolveFlat ⟨[hinted]⟩ Builtin.oracle ⟨0, .all⟩ ⟨"m.py", 6⟩ = .ok many ∧
      few.map (·.label) = ["int"] ∧ many.map (·.label) = ["int", "str", "None"] ∧
      few.Sublist many ∧ (few = [] ↔ many = []) := by
  have tight : (resolveFlat ⟨[hinted]⟩ Builtin.oracle ⟨1, .all⟩ ⟨"m.py", 6⟩).map
      (List.map (·.label)) = .ok ["int"] := by with_unfolding_all rfl
  have loose : (resolveFlat ⟨[hinted]⟩ Builtin.oracle ⟨0, .all⟩ ⟨"m.py", 6⟩).map
      (List.map (·.label)) = .ok ["int", "str", "None"] := by with_unfolding_all rfl
  rcases @resolveFlat_trims ⟨[hinted]⟩ Builtin.oracle ⟨"m.py", 6⟩ ⟨1, .all⟩ ⟨0, .all⟩
    (by decide) (.inr rfl) with ⟨error, _, failed, _⟩ | ⟨few, many, isFew, isMany, trims⟩
  · rw [failed] at tight
    cases tight
  · rw [isFew] at tight
    rw [isMany] at loose
    exact ⟨few, many, isFew, isMany, Except.ok.inj tight, Except.ok.inj loose, trims⟩

end TypeTrace.Flow
