import TypeTrace.Text.Blank

/-!
# Type hints

A hint is the annotation of a parameter or of what a function returns.  It may be
written as a string literal, so that it can name a type that is defined later;
`unquoted` takes the quotes away.
-/

namespace TypeTrace.Types

/-- The quotes a hint may stand in, longest first. -/
def quotes : List (List Char) :=
  [['"', '"', '"'], ['\'', '\'', '\''], ['"'], ['\'']]

/-- The text between a quote in front and the same quote behind it. -/
def between? (quote text : List Char) : Option (List Char) :=
  if quote.isPrefixOf text then
    let inner := text.drop quote.length
    if quote.isSuffixOf inner then
      some (inner.take (inner.length - quote.length))
    else
      none
  else
    none

/-- A trimmed text without the first kind of quote that encloses it. -/
def unquoted (text : List Char) : List Char :=
  let text := Text.trim text
  match quotes.findSome? (between? · text) with
  | some inner => Text.trim inner
  | none => text

/-- The type that a hint spells. -/
def hintText (text : String) : String :=
  String.ofList (unquoted text.toList)

end TypeTrace.Types
