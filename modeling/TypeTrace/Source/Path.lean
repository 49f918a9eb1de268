/-!
# File paths

Two paths are the same when they have the same components.  Repeated and trailing
slashes do not count, nor does a `.` unless a relative path begins with it.  A `..` is
a component like any other.
-/

namespace TypeTrace.Path

/-- A component of a path. -/
inductive Component where
  | root
  | current
  | parent
  | name (text : List Char)
  deriving Repr, DecidableEq, Inhabited

/-- The texts between the slashes of a path. -/
def segments : List Char → List (List Char)
  | [] => [[]]
  | character :: rest =>
      if character = '/' then
        [] :: segments rest
      else
        (segments rest).modifyHead (character :: ·)

/-- The component that a segment behind the first position stands for. -/
def inner? (segment : List Char) : Option Component :=
  if segment = [] ∨ segment = ['.'] then
    none
  else if segment = ['.', '.'] then
    some .parent
  else
    some (.name segment)

/-- The components in front: the root of an absolute path, or a leading `.`. -/
def leading (text : List Char) : List Component :=
  if text.head? = some '/' then
    [.root]
  else if (segments text).head? = some ['.'] then
    [.current]
  else
    []

/-- The components of a path. -/
def components (path : String) : List Component :=
  let text := path.toList
  leading text ++ (segments text).filterMap inner?

/-- Whether two texts name the same path. -/
def same (left right : String) : Bool :=
  decide (components left = components right)

end TypeTrace.Path
