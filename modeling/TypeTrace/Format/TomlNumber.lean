import TypeTrace.Format.Toml
import TypeTrace.Text.Digits

/-!
# Words and numbers of TOML

A value without quotes or brackets is one word: a truth value, an integer in one of
four bases, or a number with a fraction or an exponent.  Digits may be grouped with
single underscores.
-/

namespace TypeTrace.Toml

/-- Digits without the underscores between them. -/
def ungrouped? : List Char → Option (List Char)
  | [] => none
  | [digit] => if digit = '_' then none else some [digit]
  | digit :: rest@(next :: after) =>
      if digit = '_' then none
      else if next = '_' then (ungrouped? after).map (digit :: ·)
      else (ungrouped? rest).map (digit :: ·)

/-- The value of a numeral with grouped digits. -/
def grouped? (base : Nat) (text : List Char) : Option Nat :=
  (ungrouped? text).bind (Text.numeral? base)

/-- The value of a decimal numeral with grouped digits and no zero in front of others. -/
def whole? : List Char → Option Nat
  | '0' :: _ :: _ => none
  | text => grouped? 10 text

/-- A sign in front of a word, which may be left out; whether it is negative. -/
def signed : List Char → Bool × List Char
  | '-' :: rest => (true, rest)
  | '+' :: rest => (false, rest)
  | text => (false, text)

/-- An integer of 64 bits with a sign. -/
def word? (value : Int) : Option Value :=
  if -0x8000000000000000 ≤ value ∧ value < 0x8000000000000000 then
    some (.integer value)
  else
    none

/-- An integer. -/
def integer? : List Char → Option Value
  | '0' :: 'x' :: digits => (grouped? 16 digits).bind fun value => word? value
  | '0' :: 'o' :: digits => (grouped? 8 digits).bind fun value => word? value
  | '0' :: 'b' :: digits => (grouped? 2 digits).bind fun value => word? value
  | text =>
      let (negative, digits) := signed text
      (whole? digits).bind fun value => word? (if negative then -value else value)

/-- A text cut in two where a character is first met. -/
def cutAt (stops : Char → Bool) (text : List Char) : List Char × Option (List Char) :=
  match text.dropWhile (fun character => !stops character) with
  | [] => (text, none)
  | _ :: rest => (text.takeWhile (fun character => !stops character), some rest)

/-- The digits of a fraction: their value and their number. -/
def fraction? (text : List Char) : Option (Nat × Nat) := do
  let digits ← ungrouped? text
  return (← Text.numeral? 10 digits, digits.length)

/-- The exponent of a number. -/
def exponent? (text : List Char) : Option Int :=
  let (negative, digits) := signed text
  (grouped? 10 digits).map fun value => if negative then -value else value

/-- A number with a fraction or an exponent, without its sign. -/
def scientific? (negative : Bool) (text : List Char) : Option Decimal.Number := do
  let (mantissa, power) := cutAt (fun character => character = 'e' ∨ character = 'E') text
  let (whole, places) := cutAt (· = '.') mantissa
  if power.isNone ∧ places.isNone then
    none
  else
    let whole ← whole? whole
    let (fraction, length) ← (places.map fraction?).getD (some (0, 0))
    let exponent ← (power.map exponent?).getD (some 0)
    return Decimal.nearest negative (whole * Nat.pow 10 length + fraction) (exponent - length)

/-- A number that is not an integer.  A number too large is refused, unless it is
negative. -/
def float? (text : List Char) : Option Value :=
  let (negative, rest) := signed text
  if rest = ['i', 'n', 'f'] then
    some (.float (.infinite negative))
  else if rest = ['n', 'a', 'n'] then
    some (.float .undefined)
  else
    ((scientific? negative rest).filter (· ≠ .infinite false)).map .float

/-- The value of a word. -/
def wordValue? (text : List Char) : Option Value :=
  if text = "true".toList then some (.boolean true)
  else if text = "false".toList then some (.boolean false)
  else (integer? text).or (float? text)

end TypeTrace.Toml
