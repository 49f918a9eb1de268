import TypeTrace.CommandLine.Run

/-!
# Directories

A directory that is held in memory, as the surroundings of a run.  Paths lead to what
is stored under a name whether or not they begin with `./`.
-/

namespace TypeTrace.CommandLine

open Syntax

/-- What stands under a name. -/
inductive Content where
  | directory
  /-- The bytes of a file, and what a parser makes of them. -/
  | file (bytes : ByteArray) (parsed : Except String Suite)

/-- What a directory holds, by name. -/
structure Directory where
  contents : List (String × Content)

namespace Directory

/-- The steps that a path takes from the directory. -/
def steps (path : String) : List Path.Component :=
  (Path.components path).filter (· ≠ .current)

/-- What a path leads to.  Without a step it leads to the directory itself. -/
def find? (directory : Directory) (path : String) : Option Content :=
  if path.isEmpty then
    none
  else if steps path = [] then
    some .directory
  else
    (directory.contents.find? fun (name, _) => steps name = steps path).map (·.2)

/-- The text of the file that a path leads to. -/
def read (directory : Directory) (path : String) : Except ReadError String :=
  match directory.find? path with
  | none => .error .missing
  | some .directory => .error .directory
  | some (.file bytes _) =>
      match String.fromUTF8? bytes with
      | some text => .ok text
      | none => .error .notText

/-- What a parser makes of the file that a path leads to. -/
def parsed (directory : Directory) (path : String) : Except String Suite :=
  match directory.find? path with
  | some (.file _ parsed) => parsed
  | _ => .ok []

/-- The directory as the surroundings of a run. -/
def surroundings (directory : Directory) : Surroundings :=
  ⟨directory.read, fun path _ => directory.parsed path⟩

end Directory

end TypeTrace.CommandLine
