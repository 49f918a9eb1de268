import TypeTrace.Format.TomlNumber

/-!
# Reading TOML

A reader takes its part off the front of a text and leaves the rest.  A document is a
sequence of lines, each with a key and its value, the header of a table, or nothing;
the fields are gathered while the lines are read.

Settings are plain documents: dates, strings over several lines and arrays of tables are
not read, and a document with one of them is refused like any other that is malformed.
-/

namespace TypeTrace.Toml

/-- The blanks within a line. -/
def isBlank (character : Char) : Bool := character == ' ' || character == '\t'

/-- A text without the blanks in front. -/
def skipBlanks (text : List Char) : List Char := text.dropWhile isBlank

/-- Characters that may be written as they are: all but controls, a tab apart. -/
def isPlain (character : Char) : Bool :=
  character == '\t' || (32 ≤ character.toNat && character.toNat != 127)

/-- What follows the end of a line in front of a text. -/
def afterBreak? : List Char → Option (List Char)
  | '\n' :: rest => some rest
  | '\r' :: '\n' :: rest => some rest
  | _ => none

/-- What follows the end of the line, where only blanks and a comment may be left. -/
def afterLine? (text : List Char) : Option (List Char) :=
  let rest :=
    match skipBlanks text with
    | '#' :: comment => comment.dropWhile isPlain
    | other => other
  if rest.isEmpty then some [] else afterBreak? rest

/-- A text without the blanks, lines and comments in front. -/
def skipGaps? : (inComment : Bool) → List Char → Option (List Char)
  | _, [] => some []
  | _, '\n' :: rest => skipGaps? false rest
  | _, '\r' :: '\n' :: rest => skipGaps? false rest
  | true, character :: rest => if isPlain character then skipGaps? true rest else none
  | false, '#' :: rest => skipGaps? true rest
  | false, character :: rest =>
      if isBlank character then skipGaps? false rest else some (character :: rest)

/-- The character with a given code, if there is one. -/
def character? (digits : List Char) : Option Char :=
  (Text.numeral? 16 digits).bind fun code =>
    if code.isValidChar then some (Char.ofNat code) else none

/-- A character that is written with a backslash and one letter. -/
def simpleEscape? (letter : Char) : Option Char :=
  if letter = 'n' then some '\n'
  else if letter = 't' then some '\t'
  else if letter = 'r' then some '\r'
  else if letter = 'b' then some (Char.ofNat 8)
  else if letter = 'f' then some (Char.ofNat 12)
  else if letter = '"' ∨ letter = '\\' then some letter
  else none

/-- The character behind a backslash, and what follows. -/
def escape? : List Char → Option (Char × List Char)
  | [] => none
  | letter :: rest =>
      let length := if letter = 'u' then 4 else if letter = 'U' then 8 else 0
      if length = 0 then
        (simpleEscape? letter).map (·, rest)
      else if rest.length < length then
        none
      else
        (character? (rest.take length)).map (·, rest.drop length)

/-- The characters of a string up to its closing quote. -/
def readBasic? : (bound : Nat) → List Char → Option (List Char × List Char)
  | 0, _ => none
  | _ + 1, [] => none
  | bound + 1, first :: rest =>
      if first = '"' then
        some ([], rest)
      else if first = '\\' then
        (escape? rest).bind fun (character, rest) =>
          (readBasic? bound rest).map fun (text, rest) => (character :: text, rest)
      else if isPlain first then
        (readBasic? bound rest).map fun (text, rest) => (first :: text, rest)
      else
        none

/-- The characters of a string without escapes, up to its closing quote. -/
def readLiteral? (text : List Char) : Option (List Char × List Char) :=
  let inside := fun character => isPlain character && character != '\x27'
  match text.dropWhile inside with
  | '\x27' :: rest => some (text.takeWhile inside, rest)
  | _ => none

/-- A string in either kind of quotes. -/
def readQuoted? : List Char → Option (String × List Char)
  | '"' :: rest =>
      (readBasic? (rest.length + 1) rest).map fun (text, rest) => (String.ofList text, rest)
  | '\x27' :: rest =>
      (readLiteral? rest).map fun (text, rest) => (String.ofList text, rest)
  | _ => none

/-- Characters of a key without quotes. -/
def isKeyCharacter (character : Char) : Bool :=
  character.isAlphanum || character == '_' || character == '-'

/-- One part of a key. -/
def readPart? (text : List Char) : Option (String × List Char) :=
  let bare := text.takeWhile isKeyCharacter
  if bare.isEmpty then
    readQuoted? text
  else
    some (String.ofList bare, text.dropWhile isKeyCharacter)

/-- A key, its parts divided by points. -/
def readKey? : (bound : Nat) → List Char → Option (List String × List Char)
  | 0, _ => none
  | bound + 1, text =>
      (readPart? (skipBlanks text)).bind fun (part, rest) =>
        match skipBlanks rest with
        | '.' :: rest => (readKey? bound rest).map fun (parts, rest) => (part :: parts, rest)
        | rest => some ([part], rest)

/-- A key and the sign between it and its value. -/
def readAssigned? (text : List Char) : Option (List String × List Char) :=
  (readKey? (text.length + 1) text).bind fun (key, rest) =>
    match rest with
    | '=' :: rest => some (key, skipBlanks rest)
    | _ => none

/-- Characters that end a word. -/
def endsWord (character : Char) : Bool :=
  isBlank character || character == '\n' || character == '\r' || character == ',' ||
    character == ']' || character == '\x7d' || character == '#'

/-- A value that is one word. -/
def readWord? (text : List Char) : Option (Value × List Char) :=
  let inside := fun character => !endsWord character
  (wordValue? (text.takeWhile inside)).map (·, text.dropWhile inside)

mutual

/-- A value in front of a text. -/
def readValue? : (bound : Nat) → List Char → Option (Value × List Char)
  | 0, _ => none
  | bound + 1, text =>
      match text with
      | '[' :: rest =>
          (readItems? bound rest).map fun (items, rest) => (.array items, rest)
      | '\x7b' :: rest =>
          match skipBlanks rest with
          | '\x7d' :: rest => some (.table true .explicit [], rest)
          | rest =>
              (readPairs? bound [] rest).map fun (fields, rest) =>
                (.table true .explicit fields, rest)
      | other =>
          match readQuoted? other with
          | some (text, rest) => some (.string text, rest)
          | none => readWord? other

/-- The rest of an array, which may span lines and end with a comma. -/
def readItems? : (bound : Nat) → List Char → Option (List Value × List Char)
  | 0, _ => none
  | bound + 1, text =>
      match skipGaps? false text with
      | none => none
      | some (']' :: rest) => some ([], rest)
      | some rest =>
          match readValue? bound rest with
          | none => none
          | some (item, rest) =>
              match skipGaps? false rest with
              | some (',' :: rest) =>
                  (readItems? bound rest).map fun (items, rest) => (item :: items, rest)
              | some (']' :: rest) => some ([item], rest)
              | _ => none

/-- The rest of a table in braces, at least one field, added to those before it. -/
def readPairs? : (bound : Nat) → Fields → List Char → Option (Fields × List Char)
  | 0, _, _ => none
  | bound + 1, fields, text =>
      match readAssigned? text with
      | none => none
      | some (key, rest) =>
          match readValue? bound rest with
          | none => none
          | some (value, rest) =>
              match assign true value key fields with
              | none => none
              | some fields =>
                  match skipBlanks rest with
                  | ',' :: rest => readPairs? bound fields rest
                  | '\x7d' :: rest => some (fields, rest)
                  | _ => none

end

/-- The lines of a document from some line on: the table they belong to, and the fields
of the document so far. -/
def readLines? : (bound : Nat) → (path : List String) → Fields → List Char → Option Fields
  | 0, _, _, _ => none
  | bound + 1, path, fields, text =>
      match skipBlanks text with
      | [] => some fields
      | '[' :: rest =>
          match readKey? (rest.length + 1) rest with
          | some (path, ']' :: rest) => do
              let rest ← afterLine? rest
              readLines? bound path (← header path fields) rest
          | _ => none
      | line =>
          match afterLine? line with
          | some rest => readLines? bound path fields rest
          | none => do
              let (key, rest) ← readAssigned? line
              let (value, rest) ← readValue? (rest.length + 1) rest
              let rest ← afterLine? rest
              readLines? bound path (← assignIn path key value fields) rest

/-- The fields of a document, which may begin with a byte order mark. -/
def parse? (text : String) : Option Fields :=
  let characters :=
    match text.toList with
    | first :: rest => if first.toNat = 0xFEFF then rest else first :: rest
    | [] => []
  readLines? (characters.length + 1) [] [] characters

end TypeTrace.Toml
