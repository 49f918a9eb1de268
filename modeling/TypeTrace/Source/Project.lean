import TypeTrace.Source.Path
import TypeTrace.Source.Unit

/-!
# Projects

A project holds one source unit for each path, in the order in which the paths were
first added.  Adding a unit under a path that is there puts it in the old one's place.
-/

namespace TypeTrace

open Syntax

/-- The source units that can be asked about. -/
structure Project where
  units : List SourceUnit := []
  deriving Inhabited

namespace Project

/-- A list of units with one more, or with the one of its path replaced. -/
def place (unit : SourceUnit) : List SourceUnit → List SourceUnit
  | [] => [unit]
  | first :: rest =>
      if Path.same first.path unit.path then
        unit :: rest
      else
        first :: place unit rest

/-- Add a unit, in place of the one with the same path if there is one. -/
def insert (project : Project) (unit : SourceUnit) : Project :=
  ⟨place unit project.units⟩

/-- The unit of a path. -/
def unit? (project : Project) (path : String) : Option SourceUnit :=
  project.units.find? fun unit => Path.same unit.path path

end Project

/-- A file that could not be parsed. -/
structure ParseError where
  path : String
  message : String
  deriving Repr, DecidableEq, Inhabited

/-- The report on a file that could not be parsed. -/
def ParseError.report (error : ParseError) : String :=
  "Python parse error in " ++ error.path ++ ": " ++ error.message

/-- The unit of a text, given what the parser makes of it. -/
def SourceUnit.ofParsed (path text : String) (parsed : Except String Suite) :
    Except ParseError SourceUnit :=
  match parsed with
  | .ok suite => .ok ⟨path, text.toList, suite⟩
  | .error message => .error ⟨path, message⟩

/-- Parse a text and add it to the project at hand. -/
def Project.add (path text : String) (parsed : Except String Suite) :
    EStateM ParseError Project Unit := do
  let unit ← MonadExcept.ofExcept (SourceUnit.ofParsed path text parsed)
  modify (·.insert unit)

end TypeTrace
