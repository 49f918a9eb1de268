/-!
# Configuration

How unions are cut and how the dependency map records what is found together.
-/

namespace TypeTrace

/-- What is kept of the first discovery under a new key of the dependency map. -/
inductive SiblingCommit where
  | firstOnly
  | all
  deriving Repr, DecidableEq, Inhabited

/-- How a resolution is carried out. -/
structure ResolverConfig where
  /-- Members kept of a union, all of them if this is zero. -/
  maxUnionMembers : Nat := 2
  siblingCommit : SiblingCommit := .firstOnly
  deriving Repr, DecidableEq, Inhabited

/-- The limit on the members of a union. -/
def ResolverConfig.unionLimit (config : ResolverConfig) : Option Nat :=
  if config.maxUnionMembers = 0 then none else some config.maxUnionMembers

/-- When a summary is put into words, and in how many. -/
structure SummaryConfig where
  /-- The number of types from which on only their number is told. -/
  warningThreshold : Nat := 3
  /-- Types that are named before the rest is only counted. -/
  displayLimit : Nat := 2
  deriving Repr, DecidableEq, Inhabited

end TypeTrace
