import TypeTrace.Text.Bytes

/-!
# Lines of a text

A line begins at byte zero and after every newline; no other character ends one.
`lineOf` takes a byte offset to its line and `offsetOf` takes a line and a column
back to an offset.  Lines and columns count from zero.
-/

namespace TypeTrace.Text

/-- Offsets after each newline of a text whose first byte stands at `position`. -/
def startsAfterBreaks (position : Nat) : List Char → List Nat
  | [] => []
  | character :: rest =>
      let next := position + character.utf8Size
      if character = '\n' then
        next :: startsAfterBreaks next rest
      else
        startsAfterBreaks next rest

/-- Byte offsets at which the lines of a text begin, in increasing order. -/
def lineStarts (text : List Char) : List Nat :=
  0 :: startsAfterBreaks 0 text

/-- The largest line number that is reported. -/
def maxLine : Nat := 0x7FFFFFFF

/-- The line that stands for "not in this text". -/
def unknownLine : Int := -1

/-- The number that people count a line by. -/
def oneBased (line : Int) : Int := line + 1

/-- Line of a byte offset: the last one that begins at or before it.  An offset past
the end has no line, nor has one whose line number is too large to report. -/
def lineOf (text : List Char) (offset : Nat) : Int :=
  if byteSize text < offset then
    unknownLine
  else
    let line := ((lineStarts text).takeWhile (· ≤ offset)).length - 1
    if line ≤ maxLine then line else unknownLine

/-- Positions are machine words, which are below this number. -/
def wordSize : Nat := 0x10000000000000000

/-- A sum is too large for a machine word. -/
structure Overflow where
  deriving Repr, DecidableEq, Inhabited

/-- The sum of two machine words, if a word holds it. -/
def wordSum (left right : Nat) : Except Overflow Nat :=
  if left + right < wordSize then .ok (left + right) else .error {}

/-- Byte offset of a column of a line.  A column may lie anywhere up to the start of
the next line, or up to the end of the text in the last one. -/
def offsetOf (text : List Char) (line column : Nat) : Except Overflow (Option Nat) :=
  match (lineStarts text)[line]? with
  | none => .ok none
  | some start =>
      let limit := ((lineStarts text)[line + 1]?).getD (byteSize text)
      (wordSum start column).map fun offset => if offset ≤ limit then some offset else none

end TypeTrace.Text
