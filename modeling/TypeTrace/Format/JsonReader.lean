import TypeTrace.Format.Json
import TypeTrace.Text.Digits

/-!
# Reading JSON

A reader takes a document off the front of a text and leaves the rest.  Each nested
document and each further item or field begins at a later character, so the number of
characters bounds the depth of the recursion.
-/

namespace TypeTrace.Json

/-- The blanks of JSON. -/
def isSpace (character : Char) : Bool :=
  character == ' ' || character == '\n' || character == '\r' || character == '\t'

/-- A text without the blanks in front. -/
def skipSpace (text : List Char) : List Char := text.dropWhile isSpace

/-- Four hexadecimal digits. -/
def hexUnit? : List Char → Option (Nat × List Char)
  | a :: b :: c :: d :: rest => (Text.numeral? 16 [a, b, c, d]).map (·, rest)
  | _ => none

/-- A character that is written with a backslash and one letter. -/
def simpleEscape? (letter : Char) : Option Char :=
  if letter = 'n' then some '\n'
  else if letter = 't' then some '\t'
  else if letter = 'r' then some '\r'
  else if letter = 'b' then some (Char.ofNat 8)
  else if letter = 'f' then some (Char.ofNat 12)
  else if letter = '"' ∨ letter = '\\' ∨ letter = '/' then some letter
  else none

/-- A character behind `\u`: one code unit, or two that form a surrogate pair. -/
def unicodeEscape? (text : List Char) : Option (Char × List Char) :=
  match hexUnit? text with
  | none => none
  | some (high, rest) =>
      if 0xD800 ≤ high ∧ high < 0xDC00 then
        match rest with
        | '\\' :: 'u' :: more =>
            match hexUnit? more with
            | some (low, rest) =>
                if 0xDC00 ≤ low ∧ low < 0xE000 then
                  some (Char.ofNat (0x10000 + (high - 0xD800) * 0x400 + (low - 0xDC00)), rest)
                else
                  none
            | none => none
        | _ => none
      else if 0xDC00 ≤ high ∧ high < 0xE000 then
        none
      else
        some (Char.ofNat high, rest)

/-- The characters of a string up to its closing quote. -/
def readString? : (bound : Nat) → List Char → Option (List Char × List Char)
  | 0, _ => none
  | _ + 1, [] => none
  | _ + 1, '"' :: rest => some ([], rest)
  | bound + 1, '\\' :: 'u' :: rest =>
      match unicodeEscape? rest with
      | none => none
      | some (character, rest) =>
          (readString? bound rest).map fun (text, rest) => (character :: text, rest)
  | bound + 1, '\\' :: letter :: rest =>
      match simpleEscape? letter with
      | none => none
      | some character =>
          (readString? bound rest).map fun (text, rest) => (character :: text, rest)
  | bound + 1, character :: rest =>
      if character = '\\' ∨ character.toNat < 32 then
        none
      else
        (readString? bound rest).map fun (text, rest) => (character :: text, rest)

/-- An unsigned number in front of a text. -/
def readNatural? (text : List Char) : Option (Nat × List Char) :=
  (Text.numeral? 10 (text.takeWhile Char.isDigit)).map (·, text.dropWhile Char.isDigit)

/-- What follows a given word. -/
def afterWord? (word text : List Char) : Option (List Char) :=
  if word.isPrefixOf text then some (text.drop word.length) else none

mutual

/-- A document in front of a text, blanks before it left out. -/
def readValue? : (bound : Nat) → List Char → Option (Json × List Char)
  | 0, _ => none
  | bound + 1, text =>
      match skipSpace text with
      | '"' :: rest =>
          (readString? (rest.length + 1) rest).map fun (characters, rest) =>
            (.string (String.ofList characters), rest)
      | '[' :: rest =>
          match skipSpace rest with
          | ']' :: rest => some (.array [], rest)
          | rest => (readItems? bound rest).map fun (items, rest) => (.array items, rest)
      | '\x7b' :: rest =>
          match skipSpace rest with
          | '\x7d' :: rest => some (.object [], rest)
          | rest => (readFields? bound rest).map fun (fields, rest) => (.object fields, rest)
      | '-' :: rest =>
          (readNatural? rest).map fun (value, rest) => (.number (-(value : Int)), rest)
      | other =>
          ((afterWord? "null".toList other).map fun rest => (Json.null, rest))
          |>.or ((afterWord? "true".toList other).map fun rest => (Json.bool true, rest))
          |>.or ((afterWord? "false".toList other).map fun rest => (Json.bool false, rest))
          |>.or ((readNatural? other).map fun (value, rest) => (Json.number value, rest))

/-- The items of an array, at least one, and its closing bracket. -/
def readItems? : (bound : Nat) → List Char → Option (List Json × List Char)
  | 0, _ => none
  | bound + 1, text =>
      match readValue? bound text with
      | none => none
      | some (item, rest) =>
          match skipSpace rest with
          | ',' :: rest => (readItems? bound rest).map fun (items, rest) => (item :: items, rest)
          | ']' :: rest => some ([item], rest)
          | _ => none

/-- The fields of an object, at least one, and its closing bracket. -/
def readFields? : (bound : Nat) → List Char → Option (List (String × Json) × List Char)
  | 0, _ => none
  | bound + 1, text =>
      match skipSpace text with
      | '"' :: rest =>
          match readString? (rest.length + 1) rest with
          | none => none
          | some (key, rest) =>
              match skipSpace rest with
              | ':' :: rest =>
                  match readValue? bound rest with
                  | none => none
                  | some (value, rest) =>
                      let field := (String.ofList key, value)
                      match skipSpace rest with
                      | ',' :: rest =>
                          (readFields? bound rest).map fun (fields, rest) =>
                            (field :: fields, rest)
                      | '\x7d' :: rest => some ([field], rest)
                      | _ => none
              | _ => none
      | _ => none

end

/-- The document that a text is. -/
def parse? (text : String) : Option Json :=
  let characters := text.toList
  match readValue? (characters.length + 1) characters with
  | some (value, rest) => if (skipSpace rest).isEmpty then some value else none
  | none => none

end TypeTrace.Json
