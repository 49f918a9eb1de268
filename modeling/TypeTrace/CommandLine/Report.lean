import TypeTrace.CommandLine.Arguments
import TypeTrace.Flow.Resolve
import TypeTrace.Format.Json
import TypeTrace.Settings
import TypeTrace.View.Summary
import TypeTrace.View.Tree

/-!
# Reports

What a run writes: a result as text or as JSON, or a failure with its causes.
-/

namespace TypeTrace.CommandLine

open TypeTrace.Flow TypeTrace.View

/-! ## Results -/

/-- What is said where there is nothing to show. -/
def noTypes : String := "No types found"

/-- The status of a summary, also of an empty one. -/
def summaryStatus (summary : TypeSummary) (config : SummaryConfig) : String :=
  if summary.isEmpty then noTypes else summary.status config

/-- The line of text for an entry. -/
def entryLine (entry : Entry) : String :=
  match entry.oneBasedLine? with
  | none => entry.label
  | some line => entry.label ++ "  (line " ++ toString line ++ ")"

/-- A number of a document. -/
def count (value : Nat) : Json := .number value

/-- Lines of a document. -/
def lineNumbers (lines : List Int) : Json := .array (lines.map .number)

/-- An entry as a document. -/
def entryDocument (entry : Entry) : Json :=
  .object [("label", .string entry.label), ("line", .ofOption .number entry.oneBasedLine?)]

/-- A summary as a document. -/
def summaryDocument (summary : TypeSummary) : Json :=
  let types := summary.types.map fun (label, stat) =>
    (label, Json.object [("count", count stat.count), ("lines", lineNumbers stat.lines)])
  .object [("types", .object types)]

mutual

/-- A node of a tree as a document. -/
def nodeDocument : TreeNode → Json
  | ⟨label, typeLabel, occurrences, lines, children⟩ =>
      .object [("label", .string label), ("type_label", .string typeLabel),
        ("count", count occurrences), ("lines", lineNumbers lines),
        ("children", .array (nodeDocuments children))]

/-- The nodes of one level as documents. -/
def nodeDocuments : List TreeNode → List Json
  | [] => []
  | node :: rest => nodeDocument node :: nodeDocuments rest

end

/-- A tree as a document. -/
def treeDocument (tree : TypeTree) : Json :=
  .object [("root", nodeDocument tree.root), ("direct_types", count tree.directTypes),
    ("total_types", count tree.totalTypes)]

/-- The list of types, as it is written. -/
def flatReport (format : Format) (config : SummaryConfig) (entries : List Entry) : String :=
  let summary := TypeSummary.ofEntries entries
  let status := summaryStatus summary config
  match format with
  | .text => "\n".intercalate (status :: entries.map entryLine)
  | .json =>
      (Json.object [("status", .string status), ("summary", summaryDocument summary),
        ("entries", .array (entries.map entryDocument))]).pretty 0

/-- The tree of types, as it is written. -/
def treeReport (format : Format) (tree : TypeTree) : String :=
  match format with
  | .text => tree.status ++ "\n" ++ tree.render
  | .json =>
      (Json.object [("status", .string tree.status), ("tree", treeDocument tree)]).pretty 0

/-- What is written when nothing can be resolved. -/
def emptyReport (format : Format) (error : ResolutionError) : String :=
  match format with
  | .text => noTypes
  | .json =>
      (Json.object [("status", .string noTypes), ("error", .string error.message)]).pretty 0

/-! ## Failures -/

/-- Why a file cannot be read. -/
inductive ReadError where
  | missing
  | directory
  /-- Its bytes are not UTF-8. -/
  | notText
  deriving Repr, DecidableEq, Inhabited

/-- What is said about a file that cannot be read. -/
def ReadError.message : ReadError → String
  | .missing => "No such file or directory (os error 2)"
  | .directory => "Is a directory (os error 21)"
  | .notText => "stream did not contain valid UTF-8"

/-- Why a run fails. -/
inductive Failure where
  | unreadableSettings (path : String) (error : ReadError)
  | invalidSettings (path : String) (error : SettingsError)
  | unreadableSource (path : String) (error : ReadError)
  | unparsableSource (path : String) (error : ParseError)
  /-- A line or a column is zero. -/
  | notOneBased
  | outsideFile (path : String) (line column : Nat)
  deriving Inhabited

/-- What went wrong, and then the causes, each the reason of the one before. -/
def Failure.chain : Failure → String × List String
  | .unreadableSettings path error => ("failed to read config " ++ path, [error.message])
  | .invalidSettings path _ =>
      ("in config " ++ path, ["invalid settings", "TOML parse error"])
  | .unreadableSource path error =>
      ("failed to load " ++ path,
        ["failed to read " ++ path ++ ": " ++ error.message, error.message])
  | .unparsableSource path error => ("failed to load " ++ path, [error.report])
  | .notOneBased => ("--line and --column are one-based", [])
  | .outsideFile path line column =>
      (path ++ ":" ++ toString line ++ ":" ++ toString column ++ " is outside the file", [])

/-- A text with a margin on every line but the first. -/
def hanging (margin : String) (text : String) : String :=
  String.ofList (text.toList.flatMap fun character =>
    if character = '\n' then '\n' :: margin.toList else [character])

/-- Causes on lines of their own, with numbers if there are several. -/
def causeLines : List String → List String
  | [cause] => ["    " ++ hanging "    " cause]
  | causes =>
      causes.zipIdx.map fun (cause, index) =>
        "    " ++ toString index ++ ": " ++ hanging "       " cause

/-- What is written about a failure. -/
def Failure.report (failure : Failure) : String :=
  match failure.chain with
  | (message, []) => "Error: " ++ message
  | (message, causes) =>
      "Error: " ++ message ++ "\n\nCaused by:\n" ++ "\n".intercalate (causeLines causes)

end TypeTrace.CommandLine
