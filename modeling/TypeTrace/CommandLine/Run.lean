import TypeTrace.CommandLine.Report
import TypeTrace.Oracle.Builtin

/-!
# Runs

A run reads the settings and the source file, finds the position, and writes what a
resolution there gives, in this order; it stops at the first failure.  A position that
cannot be resolved is a result and not a failure, and one whose offset is too large to be
computed ends the run at once.
-/

namespace TypeTrace.CommandLine

open TypeTrace.Syntax TypeTrace.Types TypeTrace.Flow TypeTrace.View

/-- The files around a run, and what a parser makes of them. -/
structure Surroundings where
  /-- The text of the file at a path. -/
  read : String → Except ReadError String
  /-- The syntax tree of the file at a path with a given text, or what is wrong with it. -/
  parse : String → String → Except String Suite

/-- How a run ends. -/
inductive Outcome where
  /-- With a result. -/
  | success (output : String)
  | failure (failure : Failure)
  /-- The arguments were refused. -/
  | refusal (error : UsageError)
  /-- At once, where it stood. -/
  | crash
  deriving Inhabited

/-- The exit code of an outcome. -/
def Outcome.code : Outcome → Nat
  | .success _ => 0
  | .failure _ => 1
  | .refusal _ => 2
  | .crash => 101

/-- Why a run ends without a result. -/
inductive Stop where
  | failure (failure : Failure)
  /-- An offset is too large for a machine word. -/
  | overflow
  deriving Inhabited

/-- What the program calls itself. -/
def versionText : String := "typeflow 0.1.0"

/-- How the program is called. -/
def usage : String :=
  "\n".intercalate [
    "Trace the types a Python variable, parameter or call may hold",
    "",
    "Usage: typeflow [OPTIONS] <--offset <OFFSET>|--line <LINE>> <FILE>",
    "",
    "      --offset <OFFSET>                 Byte offset of the element to resolve",
    "      --line <LINE>                     One-based line of the element to resolve",
    "      --column <COLUMN>                 One-based column (in bytes) of the element",
    "      --tree                            Show the dependency tree instead of a flat list",
    "      --format <FORMAT>                 Output format: text or json",
    "  -c, --config <CONFIG>                 Settings file",
    "      --max-union-members <COUNT>       Members kept from a union, 0 for no limit",
    "      --all-siblings                    Record every sibling under a new dependency key",
    "  -v, --verbose                         More messages",
    "  -h, --help                            Print help",
    "  -V, --version                         Print version"]

/-- How a run ends that asks for a trace. -/
def Outcome.ofTrace : Except Stop String → Outcome
  | .ok text => .success (text ++ "\n")
  | .error (.failure reason) => .failure reason
  | .error .overflow => .crash

/-- The settings in the file that the options name, or the default ones. -/
def settingsFile (files : Surroundings) : Option String → Except Failure Settings
  | none => .ok {}
  | some path => do
      let text ← (files.read path).mapError (.unreadableSettings path)
      (Settings.parse text).mapError (.invalidSettings path)

/-- Settings with what the options say instead. -/
def Options.override (options : Options) (settings : Settings) : Settings :=
  let resolver := settings.resolver
  { settings with
    resolver := {
      maxUnionMembers := options.maxUnionMembers.getD resolver.maxUnionMembers
      siblingCommit := if options.allSiblings then .all else resolver.siblingCommit } }

/-- The source file that is asked about. -/
def sourceFile (files : Surroundings) (path : String) : Except Failure SourceUnit := do
  let text ← (files.read path).mapError (.unreadableSource path)
  (SourceUnit.ofParsed path text (files.parse path text)).mapError (.unparsableSource path)

/-- The offset that a position stands for. -/
def Position.offsetIn (unit : SourceUnit) : Position → Except Stop Nat
  | .offset place => .ok place
  | .lineColumn line column =>
      if line = 0 ∨ column = 0 then
        .error (.failure .notOneBased)
      else
        match unit.offsetOf (line - 1) (column - 1) with
        | .ok (some place) => .ok place
        | .ok none => .error (.failure (.outsideFile unit.path line column))
        | .error _ => .error .overflow

/-- What is written about the element at an offset. -/
def resolution (options : Options) (settings : Settings) (unit : SourceUnit)
    (offset : Nat) : String :=
  let project : Project := Project.insert {} unit
  let anchor : Anchor := ⟨unit.path, offset⟩
  if options.tree then
    match resolveGraph project Builtin.oracle settings.resolver anchor with
    | .ok graph => treeReport options.format (TypeTree.ofGraph graph)
    | .error error => emptyReport options.format error
  else
    match resolveFlat project Builtin.oracle settings.resolver anchor with
    | .ok entries => flatReport options.format settings.summary entries
    | .error error => emptyReport options.format error

/-- Carry out a request for a trace. -/
def trace (files : Surroundings) (options : Options) : Except Stop String := do
  let settings ← (settingsFile files options.config).mapError .failure
  let unit ← (sourceFile files options.file).mapError .failure
  let offset ← options.position.offsetIn unit
  return resolution options (options.override settings) unit offset

/-- Carry out a request, if the arguments make one. -/
def carryOut (files : Surroundings) : Except UsageError Request → Outcome
  | .error error => .refusal error
  | .ok .version => .success (versionText ++ "\n")
  | .ok .help => .success (usage ++ "\n")
  | .ok (.trace options) => .ofTrace (trace files options)

/-- Carry out what the arguments ask for. -/
def run (files : Surroundings) (arguments : List String) : Outcome :=
  carryOut files (parse arguments)

end TypeTrace.CommandLine
