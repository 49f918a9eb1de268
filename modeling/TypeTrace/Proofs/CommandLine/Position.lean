import TypeTrace.CommandLine.Run
import TypeTrace.Proofs.Text.Lines

/-!
# Positions on the command line

An element is asked for by its offset, or by a line and a column, which count from one there.
All other arguments mean the same beside either of them (`request_placed`), so a run with a
line and a column is the run with the offset that they lead to (`run_lineColumn`), and one
whose column is too large to be added ends at once (`run_overflow`).
-/

namespace TypeTrace.CommandLine

open Text

/-! ## Numbers -/

theorem digitValue?_of_isDigit {character : Char} (isDigit : character.isDigit = true) :
    digitValue? 10 character = some (character.toNat - '0'.toNat) := by
  have range : 48 ≤ character.toNat ∧ character.toNat ≤ 57 := by
    simpa [Char.isDigit, UInt32.le_iff_toNat_le] using isDigit
  have isHex : hexValue? character = some (character.toNat - 48) := by
    rw [hexValue?, if_pos range]
  rw [digitValue?, isHex, Option.filter_some_pos (by simp; omega)]
  rfl

theorem continued?_eq_ofDigitChars {digits : List Char}
    (areDigits : ∀ character ∈ digits, character.isDigit = true) (value : Nat) :
    continued? 10 value digits = some (Nat.ofDigitChars 10 digits value) := by
  induction digits generalizing value with
  | nil => rfl
  | cons digit rest ih =>
      rw [List.forall_mem_cons] at areDigits
      rw [continued?, digitValue?_of_isDigit areDigits.1, Nat.ofDigitChars_cons,
        Nat.mul_comm 10 value]
      exact ih areDigits.2 _

theorem isDigit_of_mem_toString {number : Nat} {character : Char}
    (isPart : character ∈ (toString number).toList) : character.isDigit = true := by
  rw [Nat.toString_eq_ofList_toDigits, String.toList_ofList] at isPart
  exact Nat.isDigit_of_mem_toDigits (by decide) (by decide) isPart

theorem toString_eq_cons (number : Nat) :
    ∃ first rest, (toString number).toList = first :: rest ∧ first.isDigit = true := by
  have nonempty : (toString number).toList ≠ [] := by
    rw [Nat.toString_eq_ofList_toDigits, String.toList_ofList]
    exact Nat.toDigits_ne_nil
  obtain ⟨first, rest, isText⟩ := List.exists_cons_of_ne_nil nonempty
  have isPart : first ∈ (toString number).toList := by
    rw [isText]
    exact List.mem_cons_self
  exact ⟨first, rest, isText, isDigit_of_mem_toString isPart⟩

/-- A number is read as it is written, if a machine word holds it. -/
theorem number?_toString {number : Nat} (small : number < wordSize) :
    number? (toString number) = some number := by
  obtain ⟨first, rest, isText, isDigit⟩ := toString_eq_cons number
  have isNumeral : numeral? 10 (toString number).toList = some number := by
    rw [numeral?, isText, List.isEmpty_cons, if_neg Bool.false_ne_true, ← isText,
      continued?_eq_ofDigitChars (fun _ => isDigit_of_mem_toString),
      Nat.toString_eq_ofList_toDigits, String.toList_ofList, Nat.ofDigitChars_ten_toDigits]
  rw [number?]
  split
  next sign =>
    rw [isText] at sign
    cases sign
    cases isDigit
  next => rw [isNumeral, Option.filter_some_pos (by simpa using small)]

theorem isDashed_toString (number : Nat) : isDashed (toString number) = false := by
  obtain ⟨first, rest, isText, isDigit⟩ := toString_eq_cons number
  rw [isDashed, isText]
  split
  next dash =>
    cases dash
    cases isDigit
  next => rfl

/-! ## Arguments -/

theorem itemsAfter_file {path : String} (plain : isDashed path = false)
    (rest : List String) : itemsAfter none (path :: rest) = .file path :: itemsAfter none rest := by
  have notEnd : path ≠ "--" := by
    rintro rfl
    cases plain
  have isFile : single path = ([.file path], none) := by
    rw [single]
    rw [isDashed] at plain
    split
    next shape =>
      rw [shape] at plain
      cases plain
    next shape =>
      rw [shape] at plain
      cases plain
    next => rfl
  rw [itemsAfter, if_neg notEnd, isFile]
  rfl

/-- A name that waits for a value takes the next argument. -/
theorem itemsAfter_option {name value : String} {key : Key}
    (isName : single name = ([], some key)) (notEnd : name ≠ "--")
    (plain : isDashed value = false) (rest : List String) :
    itemsAfter none (name :: value :: rest) = .option key value :: itemsAfter none rest := by
  rw [itemsAfter, if_neg notEnd, isName]
  change itemsAfter (some key) (value :: rest) = _
  rw [itemsAfter, if_neg (by simp [plain])]

namespace Position

/-- What is said about the offset. -/
def offset? : Position → Option Nat
  | .offset place => some place
  | .lineColumn _ _ => none

/-- What is said about the line. -/
def line? : Position → Option Nat
  | .offset _ => none
  | .lineColumn line _ => some line

/-- What is said about the column. -/
def column? : Position → Option Nat
  | .offset _ => none
  | .lineColumn _ column => some column

/-- The keys that say a position. -/
def keys : List Key := [.offset, .line, .column]

end Position

namespace Gathered

/-- What was said, with a file and a position. -/
def placed (gathered : Gathered) (path : String) (position : Position) : Gathered :=
  { gathered with
    file := some path
    offset := position.offset?
    line := position.line?
    column := position.column? }

variable (gathered : Gathered) (path : String) (position : Position)

theorem options_placed :
    (gathered.placed path position).options = .ok
      { file := path
        position := position
        tree := gathered.tree
        format := gathered.format.getD .text
        config := gathered.config
        maxUnionMembers := gathered.maxUnionMembers
        allSiblings := gathered.allSiblings } := by
  cases position <;> rfl

theorem addFlag_placed (key : Key) :
    (gathered.placed path position).addFlag key =
      (gathered.addFlag key).map (·.placed path position) := by
  cases key with
  | tree =>
      by_cases earlier : gathered.tree = true <;> simp [addFlag, placed, earlier, Except.map]
  | allSiblings =>
      by_cases earlier : gathered.allSiblings = true <;>
        simp [addFlag, placed, earlier, Except.map]
  | _ => rfl

theorem addOption_placed {key : Key} (other : key ∉ Position.keys) (value : String) :
    (gathered.placed path position).addOption key value =
      (gathered.addOption key value).map (·.placed path position) := by
  cases key with
  | offset => exact absurd (by decide) other
  | line => exact absurd (by decide) other
  | column => exact absurd (by decide) other
  | format =>
      simp only [addOption, placed]
      cases once .format format? gathered.format value <;> rfl
  | config =>
      simp only [addOption, placed]
      cases once .config path? gathered.config value <;> rfl
  | maxUnionMembers =>
      simp only [addOption, placed]
      cases once .maxUnionMembers number? gathered.maxUnionMembers value <;> rfl
  | _ => rfl

end Gathered

/-- Whether something is said about a position. -/
def Item.saysPosition : Item → Bool
  | .option key _ => decide (key ∈ Position.keys)
  | _ => false

/-- Arguments that say nothing about a position. -/
def Positionless (arguments : List String) : Prop :=
  ∀ item ∈ items arguments, item.saysPosition = false

instance (arguments : List String) : Decidable (Positionless arguments) :=
  List.decidableBAll _ _

theorem request_flag (gathered : Gathered) {key : Key} (notVersion : key ≠ .version)
    (notHelp : key ≠ .help) (rest : List Item) :
    request gathered (.flag key :: rest) = (gathered.addFlag key).bind (request · rest) := by
  cases key <;> first | rfl | contradiction

/-- What is asked for depends on the position only by having it: either it is the same for
all of them, or it is a trace of the file with options that the position does not change. -/
inductive AsksAlike (path : String) (asked : Position → Except UsageError Request) : Prop where
  | same (answer : Except UsageError Request) (isAnswer : ∀ position, asked position = answer)
  | trace (options : Options) (isFile : options.file = path)
      (isTrace : ∀ position, asked position = .ok (.trace { options with position := position }))

theorem AsksAlike.of_bind {path : String} {asked : Position → Except UsageError Request}
    {items : List Item} (added : Except UsageError Gathered)
    (isAsked : ∀ position,
      asked position = (added.map (·.placed path position)).bind (request · items))
    (alike : ∀ gathered : Gathered,
      AsksAlike path fun position => request (gathered.placed path position) items) :
    AsksAlike path asked := by
  cases added with
  | error error => exact .same (.error error) isAsked
  | ok gathered =>
      cases alike gathered with
      | same answer isAnswer =>
          exact .same answer fun position => (isAsked position).trans (isAnswer position)
      | trace options isFile isTrace =>
          exact .trace options isFile fun position => (isAsked position).trans (isTrace position)

/-- Beside a file and any position, the other arguments mean the same. -/
theorem request_placed {items : List Item}
    (positionless : ∀ item ∈ items, item.saysPosition = false) (path : String)
    (gathered : Gathered) :
    AsksAlike path fun position => request (gathered.placed path position) items := by
  induction items generalizing gathered with
  | nil =>
      refine .trace ⟨path, .offset 0, gathered.tree, gathered.format.getD .text, gathered.config,
        gathered.maxUnionMembers, gathered.allSiblings⟩ rfl ?_
      intro position
      rw [request, Gathered.options_placed]
      rfl
  | cons item rest ih =>
      have alike : ∀ further : Gathered,
          AsksAlike path fun position => request (further.placed path position) rest := by
        apply ih
        intro other later
        exact positionless other (List.mem_cons_of_mem item later)
      cases item with
      | file other => exact .same (.error (.unexpectedArgument other)) fun _ => rfl
      | fault error => exact .same (.error error) fun _ => rfl
      | flag key =>
          by_cases isVersion : key = .version
          · subst isVersion
            exact .same (.ok .version) fun _ => rfl
          · by_cases isHelp : key = .help
            · subst isHelp
              exact .same (.ok .help) fun _ => rfl
            · refine AsksAlike.of_bind (gathered.addFlag key) ?_ alike
              intro position
              rw [request_flag _ isVersion isHelp, Gathered.addFlag_placed]
      | option key value =>
          have notPosition : key ∉ Position.keys := by
            simpa [Item.saysPosition] using positionless (.option key value) List.mem_cons_self
          refine AsksAlike.of_bind (gathered.addOption key value) ?_ alike
          intro position
          rw [← Gathered.addOption_placed gathered path position notPosition]
          rfl

/-- An option with a number that has not been given yet. -/
theorem once_number (key : Key) {number : Nat} (small : number < wordSize) :
    once key number? none (toString number) = .ok (some number) := by
  unfold once
  rw [number?_toString small]

theorem request_option (gathered : Gathered) (key : Key) (value : String) (rest : List Item) :
    request gathered (.option key value :: rest) =
      (gathered.addOption key value).bind (request · rest) := rfl

variable {path : String}

theorem parse_file (plain : isDashed path = false) (rest : List String) :
    parse (path :: rest) =
      (Gathered.addFile {} path).bind fun _ => request { file := some path } (items rest) := by
  rw [parse, items, itemsAfter_file plain, request, Gathered.addFile, items]
  by_cases empty : path.isEmpty = true
  · simp only [if_pos empty]
    rfl
  · simp only [if_neg empty]
    rfl

/-- The arguments that say a position. -/
def Position.arguments : Position → List String
  | .offset place => ["--offset", toString place]
  | .lineColumn line column => ["--line", toString line, "--column", toString column]

/-- A position whose numbers are machine words. -/
def Position.Small : Position → Prop
  | .offset place => place < wordSize
  | .lineColumn line column => line < wordSize ∧ column < wordSize

theorem parse_placed (plain : isDashed path = false) {position : Position}
    (small : position.Small) (rest : List String) :
    parse (path :: (position.arguments ++ rest)) =
      (Gathered.addFile {} path).bind fun _ =>
        request (Gathered.placed {} path position) (items rest) := by
  rw [parse_file plain, items]
  cases position with
  | offset place =>
      have isOffset : single "--offset" = ([], some .offset) := by decide
      have isAdded : Gathered.addOption { file := some path } .offset (toString place) =
          .ok (Gathered.placed {} path (.offset place)) := by
        rw [Gathered.addOption, once_number .offset small]
        rfl
      change ((Gathered.addFile {} path).bind fun _ => request { file := some path }
        (itemsAfter none ("--offset" :: toString place :: rest))) = _
      rw [itemsAfter_option isOffset (by decide) (isDashed_toString place), request_option, isAdded]
      rfl
  | lineColumn line column =>
      have isLine : single "--line" = ([], some .line) := by decide
      have isColumn : single "--column" = ([], some .column) := by decide
      have lineAdded : Gathered.addOption { file := some path } .line (toString line) =
          .ok { file := some path, line := some line } := by
        rw [Gathered.addOption, once_number .line small.1]
        rfl
      have columnAdded :
          Gathered.addOption { file := some path, line := some line } .column (toString column) =
            .ok (Gathered.placed {} path (.lineColumn line column)) := by
        rw [Gathered.addOption, once_number .column small.2]
        rfl
      change ((Gathered.addFile {} path).bind fun _ => request { file := some path }
        (itemsAfter none ("--line" :: toString line :: "--column" :: toString column :: rest))) = _
      rw [itemsAfter_option isLine (by decide) (isDashed_toString line),
        itemsAfter_option isColumn (by decide) (isDashed_toString column), request_option,
        lineAdded]
      simp only [Except.bind, request_option, columnAdded]
      rfl

/-! ## Runs -/

variable {files : Surroundings} {text : String}

theorem text_of_sourceFile {unit : SourceUnit} (isText : files.read path = .ok text)
    (isUnit : sourceFile files path = .ok unit) : unit.text = text.toList := by
  have isParsed : (SourceUnit.ofParsed path text (files.parse path text)).mapError
      (Failure.unparsableSource path) = .ok unit := by
    rw [sourceFile, isText] at isUnit
    exact isUnit
  cases parsed : files.parse path text with
  | error message =>
      rw [parsed] at isParsed
      cases isParsed
  | ok suite =>
      rw [parsed] at isParsed
      cases isParsed
      rfl

/-- Of the position, a trace uses the offset in the source file only. -/
theorem trace_placed (files : Surroundings) (options : Options) (position : Position) :
    trace files { options with position := position } =
      ((settingsFile files options.config).mapError Stop.failure).bind fun settings =>
        ((sourceFile files options.file).mapError Stop.failure).bind fun unit =>
          (position.offsetIn unit).map (resolution options (options.override settings) unit) := by
  rw [trace]
  cases settingsFile files options.config with
  | error failure => rfl
  | ok settings =>
      cases sourceFile files options.file with
      | error failure => rfl
      | ok unit => cases position.offsetIn unit <;> rfl

theorem trace_congr {options : Options} {left right : Position}
    (same : ∀ unit, sourceFile files options.file = .ok unit →
      left.offsetIn unit = right.offsetIn unit) :
    trace files { options with position := left } =
      trace files { options with position := right } := by
  rw [trace_placed, trace_placed]
  cases isUnit : sourceFile files options.file with
  | error failure => rfl
  | ok unit => simp only [Except.mapError, Except.bind, same unit isUnit]

/-- A position that overflows stops a trace there, unless the trace has stopped before. -/
theorem trace_overflow {options : Options} {position : Position}
    (overflows : ∀ unit, sourceFile files options.file = .ok unit →
      position.offsetIn unit = .error .overflow) :
    trace files { options with position := position } = .error .overflow ∨
      ∀ other, trace files { options with position := position } =
        trace files { options with position := other } := by
  simp only [trace_placed]
  cases settingsFile files options.config with
  | error failure => exact .inr fun _ => rfl
  | ok settings =>
      cases isUnit : sourceFile files options.file with
      | error failure => exact .inr fun _ => rfl
      | ok unit =>
          left
          simp only [Except.mapError, Except.bind, overflows unit isUnit]
          rfl

theorem offsetIn_lineColumn {unit : SourceUnit} {line column place : Nat}
    (accepted : offsetOf unit.text line column = .ok (some place)) :
    (Position.lineColumn (line + 1) (column + 1)).offsetIn unit = .ok place := by
  rw [Position.offsetIn, if_neg (by omega), SourceUnit.offsetOf, Nat.add_sub_cancel,
    Nat.add_sub_cancel, accepted]

theorem offsetIn_overflow {unit : SourceUnit} {line column : Nat}
    (overflows : offsetOf unit.text line column = .error {}) :
    (Position.lineColumn (line + 1) (column + 1)).offsetIn unit = .error .overflow := by
  rw [Position.offsetIn, if_neg (by omega), SourceUnit.offsetOf, Nat.add_sub_cancel,
    Nat.add_sub_cancel, overflows]

/-- A run has the same end for every position, or the end of the trace at the position. -/
theorem run_placed (files : Surroundings) (plain : isDashed path = false) {rest : List String}
    (positionless : Positionless rest) :
    (∃ outcome, ∀ position : Position, position.Small →
      run files (path :: (position.arguments ++ rest)) = outcome) ∨
    ∃ options : Options, options.file = path ∧ ∀ position : Position, position.Small →
      run files (path :: (position.arguments ++ rest)) =
        .ofTrace (trace files { options with position := position }) := by
  cases isAdded : Gathered.addFile {} path with
  | error error =>
      refine .inl ⟨.refusal error, ?_⟩
      intro position small
      rw [run, parse_placed plain small, isAdded]
      rfl
  | ok gathered =>
      cases request_placed positionless path {} with
      | same answer isAnswer =>
          refine .inl ⟨carryOut files answer, ?_⟩
          intro position small
          rw [run, parse_placed plain small, isAdded]
          simp only [Except.bind, isAnswer]
      | trace options isFile isTrace =>
          refine .inr ⟨options, isFile, ?_⟩
          intro position small
          rw [run, parse_placed plain small, isAdded]
          simp only [Except.bind, isTrace]
          rfl

/-- A run with a line and a column is the run with the offset that they lead to. -/
theorem run_lineColumn {line column place : Nat} {rest : List String}
    (isText : files.read path = .ok text) (plain : isDashed path = false)
    (positionless : Positionless rest)
    (accepted : offsetOf text.toList line column = .ok (some place))
    (smallLine : line + 1 < wordSize) (smallColumn : column + 1 < wordSize) :
    run files (path :: "--line" :: toString (line + 1) :: "--column" ::
        toString (column + 1) :: rest) =
      run files (path :: "--offset" :: toString place :: rest) := by
  have small : (Position.lineColumn (line + 1) (column + 1)).Small := ⟨smallLine, smallColumn⟩
  have smallPlace : (Position.offset place).Small := by
    obtain ⟨_, _, _, isWord, _⟩ := offsetOf_eq_some_iff.mp accepted
    exact isWord
  rcases run_placed files plain positionless with ⟨outcome, same⟩ | ⟨options, isFile, traced⟩
  · exact (same _ small).trans (same _ smallPlace).symm
  · have sameTrace : trace files
          { options with position := .lineColumn (line + 1) (column + 1) } =
        trace files { options with position := .offset place } := by
      apply trace_congr
      intro unit isUnit
      rw [isFile] at isUnit
      apply offsetIn_lineColumn
      rwa [text_of_sourceFile isText isUnit]
    exact (traced _ small).trans ((congrArg Outcome.ofTrace sameTrace).trans
      (traced _ smallPlace).symm)

/-- A run with a column that is too large ends at once, or before it has come to the position. -/
theorem run_overflow {line column : Nat} {rest : List String}
    (isText : files.read path = .ok text) (plain : isDashed path = false)
    (positionless : Positionless rest)
    (overflows : offsetOf text.toList line column = .error {})
    (smallLine : line + 1 < wordSize) (smallColumn : column + 1 < wordSize) :
    run files (path :: "--line" :: toString (line + 1) :: "--column" ::
        toString (column + 1) :: rest) = .crash ∨
      ∀ place < wordSize,
        run files (path :: "--line" :: toString (line + 1) :: "--column" ::
            toString (column + 1) :: rest) =
          run files (path :: "--offset" :: toString place :: rest) := by
  have small : (Position.lineColumn (line + 1) (column + 1)).Small := ⟨smallLine, smallColumn⟩
  rcases run_placed files plain positionless with ⟨outcome, same⟩ | ⟨options, isFile, traced⟩
  · right
    intro place smallPlace
    exact (same _ small).trans (same (.offset place) smallPlace).symm
  · have stops : ∀ unit, sourceFile files options.file = .ok unit →
        (Position.lineColumn (line + 1) (column + 1)).offsetIn unit = .error .overflow := by
      intro unit isUnit
      rw [isFile] at isUnit
      apply offsetIn_overflow
      rwa [text_of_sourceFile isText isUnit]
    rcases trace_overflow stops with stopped | before
    · left
      exact (traced _ small).trans (congrArg Outcome.ofTrace stopped)
    · right
      intro place smallPlace
      exact (traced _ small).trans ((congrArg Outcome.ofTrace (before (.offset place))).trans
        (traced (.offset place) smallPlace).symm)

/-! ## Lines, columns and offsets -/

/-- A position is accepted if it leads to its line or to the start of the next one.  It stays on
its line in the first case only.  Every offset belongs to one position on its line, so the second
case gives it another one.  A run with a position is a run with the offset that it leads to.  A
position whose column is too large to be added is not accepted: it ends the run. -/
theorem offsetOf_leads (text : List Char) (fits : Fits text) (line column offset : Nat) :
    (offsetOf text line column = .ok (some offset) ↔
      OnLine text line column offset ∨ Overruns text line column offset) ∧
    (KeepsLine text line column offset ↔
      OnLine text line column offset ∧ line ≤ maxLine) ∧
    (Overruns text line column offset → breaksBefore text offset = line + 1) ∧
    (offsetOf text line column = .ok (some offset) →
      (∃! position : Nat × Nat, OnLine text position.1 position.2 offset) ∧
      ∀ files path rest, files.read path = .ok (String.ofList text) → isDashed path = false →
        Positionless rest →
        run files (path :: "--line" :: toString (line + 1) :: "--column" ::
            toString (column + 1) :: rest) =
          run files (path :: "--offset" :: toString offset :: rest)) ∧
    (offsetOf text line column = .error {} ↔
      ∃ start, LineBegins text line start ∧ wordSize ≤ start + column) ∧
    (offsetOf text line column = .error {} → column + 1 < wordSize →
      ∀ files path rest, files.read path = .ok (String.ofList text) → isDashed path = false →
        Positionless rest →
        run files (path :: "--line" :: toString (line + 1) :: "--column" ::
            toString (column + 1) :: rest) = .crash ∨
          ∀ place < wordSize,
            run files (path :: "--line" :: toString (line + 1) :: "--column" ::
                toString (column + 1) :: rest) =
              run files (path :: "--offset" :: toString place :: rest)) := by
  have size := fits.lt_wordSize
  refine ⟨offsetOf_eq_some_iff_leads fits, keepsLine_iff, Overruns.breaksBefore_eq, ?_,
    offsetOf_eq_error_iff, ?_⟩
  · intro accepted
    obtain ⟨start, begins, isOffset, _, inside⟩ := offsetOf_eq_some_iff.mp accepted
    have insideText : offset ≤ (encoded text).length := by
      rcases inside with ⟨inside, _⟩ | next
      · exact inside
      · exact next.inside
    refine ⟨existsUnique_onLine insideText, ?_⟩
    intro files path rest isText plain positionless
    refine run_lineColumn isText plain positionless ?_ (begins.line_lt_wordSize fits) (by omega)
    rwa [String.toList_ofList]
  · intro overflows smallColumn files path rest isText plain positionless
    obtain ⟨start, begins, _⟩ := offsetOf_eq_error_iff.mp overflows
    refine run_overflow isText plain positionless ?_ (begins.line_lt_wordSize fits) smallColumn
    rwa [String.toList_ofList]

/-- Two lines of one assignment each. -/
def twoLines : List Char := "a = 1\nbb = 's'\n".toList

/-- Files that all have one text, and no statement in it. -/
def fileOf (text : List Char) : Surroundings where
  read _ := .ok (String.ofList text)
  parse _ _ := .ok []

/-- The column behind the line break of the first line leads to the second line, and so does a
run. -/
theorem twoLines_lead :
    Fits twoLines ∧ offsetOf twoLines 0 6 = .ok (some 6) ∧
      (OnLine twoLines 0 6 6 ∨ Overruns twoLines 0 6 6) ∧
      (∃! position : Nat × Nat, OnLine twoLines position.1 position.2 6) ∧
      run (fileOf twoLines) ["m.py", "--line", toString 1, "--column", toString 7, "--tree"] =
        run (fileOf twoLines) ["m.py", "--offset", toString 6, "--tree"] := by
  have fits : Fits twoLines := by decide
  have accepted : offsetOf twoLines 0 6 = .ok (some 6) := by decide
  obtain ⟨leads, _, _, placed, _⟩ := offsetOf_leads twoLines fits 0 6 6
  obtain ⟨onOneLine, sameRun⟩ := placed accepted
  exact ⟨fits, accepted, leads.mp accepted, onOneLine,
    sameRun (fileOf twoLines) "m.py" ["--tree"] rfl (by decide) (by decide)⟩

/-- The column behind the line break is accepted, leads to the next line, and shares its offset
with the first column there. -/
theorem positions_leave_lines :
    offsetOf twoLines 0 6 = .ok (some 6) ∧ ¬ KeepsLine twoLines 0 6 6 ∧
      lineOf twoLines 6 = 1 ∧ offsetOf twoLines 1 0 = .ok (some 6) := by
  refine ⟨by decide, ?_, by decide, by decide⟩
  intro keeps
  exact absurd keeps.2 (by decide)

/-- The line of an offset is the number of line breaks before it.  With the distance from the
start of the line as column, the line leads back to the offset, and so does a run. -/
theorem lineOf_leads_back (text : List Char) (fits : Fits text)
    (few : text.count '\n' < 0x80000000) :
    (∀ offset, lineOf text offset =
      if offset ≤ (encoded text).length then
        (((encoded text).take offset).count newline : Int)
      else -1) ∧
    ∀ offset ≤ (encoded text).length, ∃ line start : Nat,
      lineOf text offset = line ∧ LineBegins text line start ∧ start ≤ offset ∧
      offsetOf text line (offset - start) = .ok (some offset) ∧
      ∀ files path rest, files.read path = .ok (String.ofList text) → isDashed path = false →
        Positionless rest →
        run files (path :: "--line" :: toString (line + 1) :: "--column" ::
            toString (offset - start + 1) :: rest) =
          run files (path :: "--offset" :: toString offset :: rest) := by
  have size := fits.lt_wordSize
  have known : ∀ offset, breaksBefore text offset ≤ maxLine := by
    intro offset
    have bound := breaksBefore_le_count text offset
    unfold maxLine
    omega
  constructor
  · intro offset
    rw [lineOf_eq]
    simp only [known, and_true]
    rfl
  · intro offset inside
    obtain ⟨start, behind, begins⟩ := exists_lineBegins text offset
    have accepted := (offsetOf_eq_some_iff_leads fits).mpr
      (.inl (onLine_of_lineBegins inside begins behind))
    refine ⟨breaksBefore text offset, start, lineOf_eq_natCast_iff.mpr ⟨inside, rfl, known offset⟩,
      begins, behind, accepted, ?_⟩
    intro files path rest isText plain positionless
    refine run_lineColumn isText plain positionless ?_ (begins.line_lt_wordSize fits) (by omega)
    rwa [String.toList_ofList]

/-- A text with a character of two bytes, an empty line, and no line break at its end. -/
def accented : List Char := "é = 1\n\nx".toList

theorem accented_leads_back :
    Fits accented ∧ accented.count '\n' < 0x80000000 ∧
      ∃ line start : Nat, lineOf accented 8 = line ∧ LineBegins accented line start ∧
        offsetOf accented line (8 - start) = .ok (some 8) ∧
        run (fileOf accented) ["m.py", "--line", toString (line + 1), "--column",
            toString (8 - start + 1), "--tree"] =
          run (fileOf accented) ["m.py", "--offset", toString 8, "--tree"] := by
  have fits : Fits accented := by decide
  have few : accented.count '\n' < 0x80000000 := by decide
  obtain ⟨line, start, isLine, begins, _, accepted, sameRun⟩ :=
    (lineOf_leads_back accented fits few).2 8 (by decide)
  exact ⟨fits, few, line, start, isLine, begins, accepted,
    sameRun (fileOf accented) "m.py" ["--tree"] rfl (by decide) (by decide)⟩

end TypeTrace.CommandLine
