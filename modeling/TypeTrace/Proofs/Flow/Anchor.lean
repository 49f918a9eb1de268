import TypeTrace.Flow.Resolve

/-!
# Anchors and their elements

A name that reads a parameter is classified as a use of it.  Any other name or attribute
chain is classified as a variable, under the text it is known by.  Once the element of an
anchor is located, nothing in a resolution can fail any more.
-/

namespace TypeTrace.Flow

open Syntax

theorem readParameter?_ne_variable {name text : String} {path : List Node}
    {expression : Expr} : readParameter? name path ≠ some (.variable expression text) := by
  induction path using readParameter?.induct name with
  | case1 => simp [readParameter?]
  | case2 span signature body outer declared found =>
      simp [readParameter?, found]
  | case3 span signature body outer missing ih =>
      simpa [readParameter?, missing] using ih
  | case4 node outer noLambda function isFunction =>
      rw [readParameter?]
      · simp [isFunction]
      · exact noLambda
  | case5 node outer noLambda noFunction ih =>
      rw [readParameter?]
      · simpa [noFunction] using ih
      · exact noLambda

/-- An offset that is classified as a variable points at a name or attribute chain, and
the variable's text is the one that is known by. -/
theorem isVariable_of_classify {unit : SourceUnit} {offset : Nat} {expression : Expr}
    {text : String} (classified : classify unit offset = .ok (.variable expression text)) :
    expression.isVariable = true ∧ text = unit.nameText expression := by
  simp only [classify] at classified
  split at classified
  next => cases classified
  next => cases classified
  next located _ =>
    split at classified
    next isVariable =>
      have isElement := Except.ok.inj classified
      cases read : parameterRead? (locate unit.suite offset) located with
      | none =>
          rw [read] at isElement
          cases isElement
          exact ⟨isVariable, rfl⟩
      | some element =>
          rw [read] at isElement
          cases isElement
          unfold parameterRead? at read
          split at read
          next => exact absurd read readParameter?_ne_variable
          next => cases read
    next => cases classified
  next => cases classified

/-! ## Resolutions at a located anchor -/

theorem eventsAt_of_located {project : Project} {anchor : Anchor} {unit : SourceUnit}
    {element : Element} (located : locateAnchor project anchor = .ok (unit, element))
    (oracle : Oracle) (config : ResolverConfig) :
    eventsAt project oracle config anchor =
      .ok (events oracle config.unionLimit unit element) := by
  simp [eventsAt, located, bind, Except.bind, pure, Except.pure]

theorem resolveFlat_of_located {project : Project} {anchor : Anchor} {unit : SourceUnit}
    {element : Element} (located : locateAnchor project anchor = .ok (unit, element))
    (oracle : Oracle) (config : ResolverConfig) :
    resolveFlat project oracle config anchor =
      .ok (flatEntries (events oracle config.unionLimit unit element)) := by
  simp [resolveFlat, eventsAt_of_located located, Except.map]

end TypeTrace.Flow
