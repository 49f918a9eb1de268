import TypeTrace.CommandLine.Directory
import TypeTrace.Format.JsonReader
import TypeTrace.Syntax.Reader

/-!
# The program

The files that the arguments name are read beforehand; all else is left to `run`.  The
syntax tree of a source file is read from a JSON document beside it, whose name is that
of the file with `.ast` added.
-/

namespace TypeTrace.CommandLine

/-- The syntax tree beside a source file. -/
def treeBeside (path : String) : IO (Except String Syntax.Suite) := do
  try
    let text ← IO.FS.readFile (path ++ ".ast")
    match (Json.parse? text).bind Syntax.suite? with
    | some suite => return .ok suite
    | none => return .error "the syntax tree cannot be read"
  catch _ =>
    return .error "there is no syntax tree"

/-- What stands at a path, if there is anything. -/
def contentAt (path : String) : IO (Option Content) := do
  try
    let bytes ← IO.FS.readBinFile path
    return some (.file bytes (← treeBeside path))
  catch
    | .noFileOrDirectory .. => return none
    | _ => return some .directory

/-- The files that the arguments name. -/
def filesNamed (arguments : List String) : IO Directory := do
  match parse arguments with
  | .error _ => return ⟨[]⟩
  | .ok request =>
      let contents ← request.files.filterMapM fun path => do
        return (← contentAt path).map (path, ·)
      return ⟨contents⟩

end TypeTrace.CommandLine

/-- Run the program on its arguments. -/
def main (arguments : List String) : IO UInt32 := do
  let files ← TypeTrace.CommandLine.filesNamed arguments
  let outcome := TypeTrace.CommandLine.run files.surroundings arguments
  match outcome with
  | .success output => IO.print output
  | .failure failure => IO.eprintln failure.report
  | .refusal error => IO.eprintln ("error: " ++ error.message)
  | .crash => IO.eprintln "attempt to add with overflow"
  return outcome.code.toUInt32
