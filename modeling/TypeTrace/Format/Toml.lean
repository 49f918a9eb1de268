import TypeTrace.Format.Decimal

/-!
# TOML documents

The values of a document, and how its tables come about.  Tables keep their keys in the
order in which they were written.  A table is defined once: by a header, in braces, or
piece by piece through dotted keys, and the three ways do not mix.
-/

namespace TypeTrace.Toml

/-- How a table came about. -/
inductive Origin where
  /-- By a header of its own, or in braces. -/
  | explicit
  /-- As a part of the name in another table's header. -/
  | implied
  /-- Through a dotted key. -/
  | dotted
  deriving Repr, DecidableEq, Inhabited

/-- A value of a document. -/
inductive Value where
  | string (value : String)
  | integer (value : Int)
  | float (value : Decimal.Number)
  | boolean (value : Bool)
  | array (items : List Value)
  /-- A table; a table in braces is closed once it has been read. -/
  | table (inBraces : Bool) (origin : Origin) (fields : List (String × Value))
  deriving Inhabited

/-- Keys and values in the order in which they were written. -/
abbrev Fields := List (String × Value)

/-- The value of a key replaced by what becomes of it, or a new key at the end. -/
def update (key : String) (change : Option Value → Option Value) : Fields → Option Fields
  | [] => (change none).map fun value => [(key, value)]
  | (first, value) :: rest =>
      if first = key then
        (change (some value)).map fun value => (first, value) :: rest
      else
        (update key change rest).map ((first, value) :: ·)

/-- Add a value under a key that is not there yet. -/
def define (key : String) (value : Value) : Fields → Option Fields :=
  update key fun
    | none => some value
    | some _ => none

/-- Add a value under a dotted key.  A table on the way is made by the key, or was not
given by a header or braces of its own; the last of them has only ever been made by
dotted keys. -/
def assign (inBraces : Bool) (value : Value) : List String → Fields → Option Fields
  | [], _ => none
  | [key], fields => define key value fields
  | key :: next :: rest, fields =>
      update key (fun
        | none => (assign inBraces value (next :: rest) []).map (.table inBraces .dotted)
        | some (.table braces origin inner) =>
            if braces = inBraces ∧ origin ≠ .explicit ∧ (rest = [] → origin = .dotted) then
              (assign inBraces value (next :: rest) inner).map (.table braces origin)
            else
              none
        | some _ => none) fields

/-- Change the fields of the table that a header's name leads to, through tables that
are there or are implied. -/
def within (change : Fields → Option Fields) : List String → Fields → Option Fields
  | [], fields => change fields
  | key :: rest, fields =>
      update key (fun
        | none => (within change rest []).map (.table false .implied)
        | some (.table false origin inner) =>
            (within change rest inner).map (.table false origin)
        | some _ => none) fields

/-- A table without one of its keys. -/
def erase (key : String) (fields : Fields) : Fields :=
  fields.filter fun (first, _) => first ≠ key

/-- Open the table of a header: a new one, or one that was only implied so far, which
moves to the end. -/
def openTable (key : String) (fields : Fields) : Option Fields :=
  match fields.lookup key with
  | none => some (fields ++ [(key, .table false .explicit [])])
  | some (.table false .implied inner) =>
      some (erase key fields ++ [(key, .table false .explicit inner)])
  | some _ => none

/-- Begin the table of a header. -/
def header : List String → Fields → Option Fields
  | [], _ => none
  | [key], fields => openTable key fields
  | key :: next :: rest, fields =>
      update key (fun
        | none => (header (next :: rest) []).map (.table false .implied)
        | some (.table false origin inner) =>
            (header (next :: rest) inner).map (.table false origin)
        | some _ => none) fields

/-- Add a value under a dotted key of the table that a header began. -/
def assignIn (path : List String) (key : List String) (value : Value) (fields : Fields) :
    Option Fields :=
  within (assign false value key) path fields

end TypeTrace.Toml
