import TreeMachine.Scalar

/-!
# TOML values

A document is a table. Tables can be written in pieces, so each one remembers how it came about,
which decides by what it may still be extended (`Origin`).

A table can be given a header of its own only once. A table that is on the way to another one in a
longer header is only implied so far, and may have its own header later; it then moves to the end. A
table of a dotted key cannot be given a header, and fields are added to it by dotted keys; a table
in braces is complete when it is closed.

All of this is done by one walk along a path of keys, which makes the tables that are missing and
stops at those that must not be passed through (`Fields.within`). What a header, a repeated header
and a field do at the end of the path differs, and so does the origin of the tables that are made on
the way. Changes that are refused give nothing, and then the whole document is refused.
-/

namespace TreeMachine.Toml

/-- How a table came about: by a header of its own, as part of a longer header, as part of a dotted
key, or in braces. -/
inductive Origin
  | header
  | implied
  | dotted
  | inline
  deriving DecidableEq, Repr

/-- A value. Dates and times are kept as they are written. The tables under repeated headers of the
form `[[key]]` are kept newest first. -/
inductive Value
  | scalar (s : Scalar)
  | dateTime (text : String)
  | array (items : List Value)
  | table (origin : Origin) (fields : List (String × Value))
  | tables (rows : List (List (String × Value)))

/-- The fields of a table, in the order in which they are written. -/
abbrev Fields := List (String × Value)

namespace Fields

/-- Changes the value of a key, or adds a key that is not there. -/
def alter (key : String) (change : Option Value → Option Value) : Fields → Option Fields
  | [] => (change none).map fun v => [(key, v)]
  | (k, v) :: fs =>
    if k = key then (change (some v)).map fun v => (k, v) :: fs
    else (alter key change fs).map ((k, v) :: ·)

/-- A table: how it came about, and its fields. -/
abbrev Piece := Origin × Fields

/-- Changes the table at a path of keys. Tables that are missing on the way are made with the given
origin, and only tables of some origins can be passed through or changed. Of repeated tables the
newest one is meant. -/
def within (made : Origin) (passes : Origin → Bool) (change : Piece → Option Piece) :
    List String → Piece → Option Piece
  | [], piece => change piece
  | key :: path, (origin, fields) => do
    let fields ← fields.alter key fun
      | none => (within made passes change path (made, [])).map fun t => .table t.1 t.2
      | some (.table o fs) =>
        if passes o then (within made passes change path (o, fs)).map fun t => .table t.1 t.2
        else none
      | some (.tables (row :: rows)) =>
        (within made passes change path (.header, row)).map fun t => .tables (t.2 :: rows)
      | some _ => none
    return (origin, fields)

/-- Changes the table at the path of a header. -/
def underHeader (path : List String) (change : Piece → Option Piece) (fields : Fields) :
    Option Fields :=
  (within .implied (· ≠ .inline) change path (.header, fields)).map (·.2)

/-- Adds the table of a header at the end. It may be there already when it was only implied so far;
then it moves to the end. -/
def openTable (path : List String) (key : String) (fields : Fields) : Option Fields :=
  fields.underHeader path fun (origin, fs) => do
    let v ← match fs.lookup key with
      | none => some (.table .header [])
      | some (.table .implied inner) => some (.table .header inner)
      | some _ => none
    return (origin, fs.filter (fun f => f.1 != key) ++ [(key, v)])

/-- Adds one more table to the repeated tables of a header. -/
def openRow (path : List String) (key : String) (fields : Fields) : Option Fields :=
  fields.underHeader path fun (origin, fs) => do
    let fs ← fs.alter key fun
      | none => some (.tables [[]])
      | some (.tables rows) => some (.tables ([] :: rows))
      | some _ => none
    return (origin, fs)

/-- Adds a field with a key that may be dotted. The tables of a dotted key must not have headers of
their own, and no key can be given twice. -/
def insert (path : List String) (key : String) (v : Value) (table : Piece) : Option Piece :=
  within .dotted (fun o => o = .implied ∨ o = .dotted) (fun (origin, fs) => do
    guard ((origin == .dotted) == !path.isEmpty)
    let fs ← fs.alter key fun
      | none => some v
      | some _ => none
    return (origin, fs)) path table

end Fields

end TreeMachine.Toml
