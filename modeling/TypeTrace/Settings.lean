import TypeTrace.Config
import TypeTrace.Format.TomlReader
import TypeTrace.Text.Quoted

/-!
# Settings

Settings are read from a TOML document.  The document is read as a whole first; then
its keys are taken in the order in which they were written, and the first that does not
fit is reported.
-/

namespace TypeTrace

/-- The settings of a run. -/
structure Settings where
  resolver : ResolverConfig := {}
  summary : SummaryConfig := {}
  deriving Repr, DecidableEq, Inhabited

/-- Why settings are refused. -/
inductive SettingsError where
  /-- The text is not a document. -/
  | malformed
  /-- A value of one kind stands where another is expected. -/
  | invalidType (value : Toml.Value) (expected : String)
  /-- A number is out of range. -/
  | invalidValue (value : Int) (expected : String)
  /-- A key has no meaning. -/
  | unknownField (name : String)
  /-- A word is none of the choices. -/
  | unknownVariant (name : String)
  /-- A value cannot name a choice. -/
  | noVariant
  deriving Inhabited

/-- What kind of value is met, in a message. -/
def Toml.Value.kind : Toml.Value → String
  | .string value => "string " ++ Text.quoted value
  | .integer value => "integer `" ++ toString value ++ "`"
  | .float value => "floating point `" ++ value.text ++ "`"
  | .boolean value => "boolean `" ++ (if value then "true" else "false") ++ "`"
  | .array _ => "sequence"
  | .table .. => "map"

/-- What an error says beyond that there is one. -/
def SettingsError.message? : SettingsError → Option String
  | .invalidType value expected =>
      some ("invalid type: " ++ value.kind ++ ", expected " ++ expected)
  | .invalidValue value expected =>
      some ("invalid value: integer `" ++ toString value ++ "`, expected " ++ expected)
  | .unknownField name =>
      some ("unknown field `" ++ name ++ "`, expected `resolver` or `summary`")
  | .unknownVariant name =>
      some ("unknown variant `" ++ name ++ "`, expected `first-only` or `all`")
  | .malformed | .noVariant => none

namespace Settings

/-- A number of things. -/
def count : Toml.Value → Except SettingsError Nat
  | .integer value =>
      if 0 ≤ value then .ok value.toNat else .error (.invalidValue value "usize")
  | other => .error (.invalidType other "usize")

/-- The choice with a given name. -/
def variant (name : String) : Except SettingsError SiblingCommit :=
  if name = "first-only" then .ok .firstOnly
  else if name = "all" then .ok .all
  else .error (.unknownVariant name)

/-- Whether a value can stand behind a choice that takes none. -/
def isEmpty : Toml.Value → Bool
  | .array items => items.isEmpty
  | .table _ _ fields => fields.isEmpty
  | _ => false

/-- A choice: its name, or a table whose only key is its name. -/
def siblingCommit : Toml.Value → Except SettingsError SiblingCommit
  | .string name => variant name
  | .table _ _ [(name, value)] => do
      let chosen ← variant name
      if isEmpty value then return chosen else throw .noVariant
  | _ => .error .noVariant

/-- One entry of the resolver's configuration; other keys are left alone. -/
def resolverEntry (config : ResolverConfig) (key : String) (value : Toml.Value) :
    Except SettingsError ResolverConfig :=
  if key = "max-union-members" then
    (count value).map fun limit => { config with maxUnionMembers := limit }
  else if key = "sibling-commit" then
    (siblingCommit value).map fun chosen => { config with siblingCommit := chosen }
  else
    .ok config

/-- One entry of the summary's configuration; other keys are left alone. -/
def summaryEntry (config : SummaryConfig) (key : String) (value : Toml.Value) :
    Except SettingsError SummaryConfig :=
  if key = "warning-threshold" then
    (count value).map fun limit => { config with warningThreshold := limit }
  else if key = "display-limit" then
    (count value).map fun limit => { config with displayLimit := limit }
  else
    .ok config

/-- A record from keys and values, in the order in which they were written. -/
def fromFields {α : Type} (entry : α → String → Toml.Value → Except SettingsError α)
    (start : α) (fields : Toml.Fields) : Except SettingsError α :=
  fields.foldlM (fun record (key, value) => entry record key value) start

/-- A record from a table, or from an array that holds its fields by position. -/
def record {α : Type} (entry : α → String → Toml.Value → Except SettingsError α)
    (name : String) (keys : List String) (start : α) :
    Toml.Value → Except SettingsError α
  | .table _ _ fields => fromFields entry start fields
  | .array items => fromFields entry start (keys.zip items)
  | other => .error (.invalidType other ("struct " ++ name))

/-- The resolver's configuration from a value. -/
def resolverConfig : Toml.Value → Except SettingsError ResolverConfig :=
  record resolverEntry "ResolverConfig" ["max-union-members", "sibling-commit"] {}

/-- The summary's configuration from a value. -/
def summaryConfig : Toml.Value → Except SettingsError SummaryConfig :=
  record summaryEntry "SummaryConfig" ["warning-threshold", "display-limit"] {}

/-- One entry at the top of a settings document, where every key has a meaning. -/
def entry (settings : Settings) (key : String) (value : Toml.Value) :
    Except SettingsError Settings :=
  if key = "resolver" then
    (resolverConfig value).map fun config => { settings with resolver := config }
  else if key = "summary" then
    (summaryConfig value).map fun config => { settings with summary := config }
  else
    .error (.unknownField key)

/-- The fields of a document. -/
def document (text : String) : Except SettingsError Toml.Fields :=
  match Toml.parse? text with
  | some fields => .ok fields
  | none => .error .malformed

/-- The settings in a document. -/
def parse (text : String) : Except SettingsError Settings := do
  fromFields entry {} (← document text)

end Settings

/-- The resolver's configuration in a document of its own. -/
def ResolverConfig.parse (text : String) : Except SettingsError ResolverConfig := do
  Settings.fromFields Settings.resolverEntry {} (← Settings.document text)

end TypeTrace
