import TypeTrace.Text.Digits
import TypeTrace.Text.Lines

/-!
# Command-line arguments

Arguments are taken from left to right.  Each says one or more things: the file, an
option with its value, or a flag.  What is said is gathered one after the other, so the
first fault is the one that counts, and a question for the version is answered unless
a fault stands before it.  Only then are the missing and the conflicting parts looked at.
-/

namespace TypeTrace.CommandLine

/-- What can be asked for by name. -/
inductive Key where
  | offset
  | line
  | column
  | tree
  | format
  | config
  | maxUnionMembers
  | allSiblings
  | verbose
  | version
  | help
  deriving Repr, DecidableEq, Inhabited

/-- Whether a value follows the name. -/
def Key.takesValue : Key → Bool
  | .offset | .line | .column | .format | .config | .maxUnionMembers => true
  | .tree | .allSiblings | .verbose | .version | .help => false

/-- The names behind two dashes. -/
def longNames : List (String × Key) :=
  [("offset", .offset), ("line", .line), ("column", .column), ("tree", .tree),
    ("format", .format), ("config", .config), ("max-union-members", .maxUnionMembers),
    ("all-siblings", .allSiblings), ("verbose", .verbose), ("version", .version),
    ("help", .help)]

/-- The names behind one dash. -/
def shortNames : List (Char × Key) :=
  [('c', .config), ('v', .verbose), ('V', .version), ('h', .help)]

/-- How the result is written. -/
inductive Format where
  | text
  | json
  deriving Repr, DecidableEq, Inhabited

/-- Where the element to resolve stands. -/
inductive Position where
  | offset (offset : Nat)
  /-- A line and a column as people count. -/
  | lineColumn (line column : Nat)
  deriving Repr, DecidableEq, Inhabited

/-- What a run is asked to do. -/
structure Options where
  file : String
  position : Position
  tree : Bool := false
  format : Format := .text
  config : Option String := none
  maxUnionMembers : Option Nat := none
  allSiblings : Bool := false
  deriving Repr, DecidableEq, Inhabited

/-- Why arguments are refused. -/
inductive UsageError where
  | unknownOption (name : String)
  | missingValue (key : Key)
  | unexpectedValue (key : Key)
  | invalidValue (key : Key) (value : String)
  | repeated (key : Key)
  | emptyFile
  | unexpectedArgument (argument : String)
  | missingFile
  /-- There is not exactly one position: an offset, or a line with a column. -/
  | noSinglePosition
  deriving Repr, DecidableEq, Inhabited

/-- The name of a key, as it is written behind two dashes. -/
def Key.name (key : Key) : String :=
  match longNames.find? fun (_, named) => named = key with
  | some (name, _) => "--" ++ name
  | none => ""

/-- What is said about arguments that are refused. -/
def UsageError.message : UsageError → String
  | .unknownOption name => "unexpected argument '" ++ name ++ "'"
  | .missingValue key => "a value is required for '" ++ key.name ++ "'"
  | .unexpectedValue key => "'" ++ key.name ++ "' takes no value"
  | .invalidValue key value => "invalid value '" ++ value ++ "' for '" ++ key.name ++ "'"
  | .repeated key => "'" ++ key.name ++ "' cannot be given twice"
  | .emptyFile => "a file is required"
  | .unexpectedArgument argument => "unexpected argument '" ++ argument ++ "'"
  | .missingFile => "a file is required"
  | .noSinglePosition => "either --offset or --line with --column is required"

/-- One thing that the arguments say. -/
inductive Item where
  | file (path : String)
  | flag (key : Key)
  | option (key : Key) (value : String)
  | fault (error : UsageError)
  deriving Repr, DecidableEq, Inhabited

/-! ## What the arguments say -/

/-- Letters behind one dash: what they say, and an option at their end whose value is
still to come.  An option takes the letters behind it for its value. -/
def cluster : List Char → List Item × Option Key
  | [] => ([], none)
  | letter :: rest =>
      match shortNames.lookup letter with
      | none => ([.fault (.unknownOption (String.ofList ['-', letter]))], none)
      | some key =>
          if key.takesValue then
            match rest with
            | [] => ([], some key)
            | '=' :: value => ([.option key (String.ofList value)], none)
            | value => ([.option key (String.ofList value)], none)
          else
            let (items, pending) := cluster rest
            (.flag key :: items, pending)

/-- A name behind two dashes, perhaps with a value behind a `=`. -/
def long (text : List Char) : List Item × Option Key :=
  let name := String.ofList (text.takeWhile (· != '='))
  match longNames.lookup name, text.dropWhile (· != '=') with
  | none, _ => ([.fault (.unknownOption ("--" ++ name))], none)
  | some key, [] => if key.takesValue then ([], some key) else ([.flag key], none)
  | some key, _ :: value =>
      if key.takesValue then
        ([.option key (String.ofList value)], none)
      else
        ([.fault (.unexpectedValue key)], none)

/-- Whether an argument is a name or the end of the names, and not a value.  A single
dash is a value. -/
def isDashed (argument : String) : Bool :=
  match argument.toList with
  | '-' :: _ :: _ => true
  | _ => false

/-- What one argument says by itself. -/
def single (argument : String) : List Item × Option Key :=
  match argument.toList with
  | '-' :: '-' :: name => long name
  | '-' :: letter :: rest => cluster (letter :: rest)
  | _ => ([.file argument], none)

/-- What arguments say, given an option whose value is to come.  After `--` there are
no names any more. -/
def itemsAfter : (pending : Option Key) → List String → List Item
  | none, [] => []
  | some key, [] => [.fault (.missingValue key)]
  | some key, argument :: rest =>
      if isDashed argument then
        [.fault (.missingValue key)]
      else
        .option key argument :: itemsAfter none rest
  | none, argument :: rest =>
      if argument = "--" then
        rest.map .file
      else
        let (items, pending) := single argument
        items ++ itemsAfter pending rest

/-- What arguments say, in order. -/
def items (arguments : List String) : List Item := itemsAfter none arguments

/-! ## What is gathered from them -/

/-- What has been said so far. -/
structure Gathered where
  file : Option String := none
  offset : Option Nat := none
  line : Option Nat := none
  column : Option Nat := none
  format : Option Format := none
  config : Option String := none
  maxUnionMembers : Option Nat := none
  tree : Bool := false
  allSiblings : Bool := false
  deriving Repr, DecidableEq, Inhabited

/-- A number of one machine word, perhaps with a plus sign in front. -/
def number? (text : String) : Option Nat :=
  let digits :=
    match text.toList with
    | '+' :: rest => rest
    | other => other
  (Text.numeral? 10 digits).filter (· < Text.wordSize)

/-- A way to write the result. -/
def format? (text : String) : Option Format :=
  if text = "text" then some .text
  else if text = "json" then some .json
  else none

/-- A path, which is not empty. -/
def path? (text : String) : Option String :=
  if text.isEmpty then none else some text

/-- The value of an option that has not been given yet. -/
def once {α : Type} (key : Key) (read : String → Option α) (earlier : Option α)
    (value : String) : Except UsageError (Option α) :=
  match read value, earlier with
  | none, _ => .error (.invalidValue key value)
  | some _, some _ => .error (.repeated key)
  | some value, none => .ok (some value)

namespace Gathered

/-- One more option. -/
def addOption (gathered : Gathered) (key : Key) (value : String) :
    Except UsageError Gathered :=
  match key with
  | .offset => (once key number? gathered.offset value).map ({ gathered with offset := · })
  | .line => (once key number? gathered.line value).map ({ gathered with line := · })
  | .column => (once key number? gathered.column value).map ({ gathered with column := · })
  | .format => (once key format? gathered.format value).map ({ gathered with format := · })
  | .config => (once key path? gathered.config value).map ({ gathered with config := · })
  | .maxUnionMembers =>
      (once key number? gathered.maxUnionMembers value).map
        ({ gathered with maxUnionMembers := · })
  | .tree | .allSiblings | .verbose | .version | .help => .error (.unexpectedValue key)

/-- One more flag.  Only the flag for more messages may be repeated. -/
def addFlag (gathered : Gathered) (key : Key) : Except UsageError Gathered :=
  match key with
  | .tree =>
      if gathered.tree then .error (.repeated key) else .ok { gathered with tree := true }
  | .allSiblings =>
      if gathered.allSiblings then
        .error (.repeated key)
      else
        .ok { gathered with allSiblings := true }
  | .verbose | .version | .help => .ok gathered
  | .offset | .line | .column | .format | .config | .maxUnionMembers =>
      .error (.missingValue key)

/-- The file, which is given once. -/
def addFile (gathered : Gathered) (path : String) : Except UsageError Gathered :=
  match gathered.file with
  | some _ => .error (.unexpectedArgument path)
  | none => if path.isEmpty then .error .emptyFile else .ok { gathered with file := some path }

/-- The position, given in exactly one of its two forms. -/
def position (gathered : Gathered) : Except UsageError Position :=
  match gathered.offset, gathered.line, gathered.column with
  | some offset, none, none => .ok (.offset offset)
  | none, some line, some column => .ok (.lineColumn line column)
  | _, _, _ => .error .noSinglePosition

/-- The options of a run from all that was said. -/
def options (gathered : Gathered) : Except UsageError Options :=
  match gathered.file with
  | none => .error .missingFile
  | some file => do
      let position ← gathered.position
      return {
        file := file
        position := position
        tree := gathered.tree
        format := gathered.format.getD .text
        config := gathered.config
        maxUnionMembers := gathered.maxUnionMembers
        allSiblings := gathered.allSiblings }

end Gathered

/-- What the arguments ask for. -/
inductive Request where
  | version
  | help
  | trace (options : Options)
  deriving Repr, DecidableEq, Inhabited

/-- The files that a request needs. -/
def Request.files : Request → List String
  | .version | .help => []
  | .trace options => options.file :: options.config.toList

/-- The request of what is said, given what was said before. -/
def request (gathered : Gathered) : List Item → Except UsageError Request
  | [] => gathered.options.map .trace
  | .flag .version :: _ => .ok .version
  | .flag .help :: _ => .ok .help
  | .fault error :: _ => .error error
  | .flag key :: rest => do request (← gathered.addFlag key) rest
  | .option key value :: rest => do request (← gathered.addOption key value) rest
  | .file path :: rest => do request (← gathered.addFile path) rest

/-- The request that arguments make. -/
def parse (arguments : List String) : Except UsageError Request :=
  request {} (items arguments)

end TypeTrace.CommandLine
