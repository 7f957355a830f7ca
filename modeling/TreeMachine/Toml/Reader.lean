import TreeMachine.Toml.Scan

/-!
# Reading TOML

A document is read line by line: headers, which say where the following fields belong, and fields.
What has been read is kept as the fields of the whole document together with the path of the last
header (`Scan.Document`), and each line changes the former along the latter.

Keys may be dotted, in headers as well as in front of values, and each part of a key may be quoted.
So a key is a list of parts and a last one, and nothing else about it matters. Values are read by
three functions that call each other, for a value, for the items of an array and for the fields in
braces. An array may go on over several lines and have comments in it, while there are no line ends
between the fields in braces.

Arrays and tables in braces can be nested up to a number of levels (`Scan.maxLevels`), which also
bounds the number of parts of a key. The levels that are left are an argument of the readers.

The readers take fuel as well, one unit for each part; twice the length of the text is always
enough. A document that is malformed anywhere is refused as a whole, without a message. So is one
that has the same key twice.
-/

namespace TreeMachine.Toml

namespace Scan

open TreeMachine.Scan

/-- The number of levels of arrays and braces, and of parts of a dotted key. -/
def maxLevels : Nat := 79

/-! ### Keys -/

/-- One part of a key: a string on one line, or letters, digits, underscores and dashes. -/
def keyPart (fuel : Nat) : Scan String := do
  match ← peek with
  | some '"' =>
    expect "\""
    return .ofList (← shortString fuel '"' true)
  | some '\'' =>
    expect "'"
    return .ofList (← shortString fuel '\'' false)
  | _ =>
    let part ← span fun c => c.isAlphanum || c == '_' || c == '-'
    guard !part.isEmpty
    return .ofList part

/-- The parts of a key. -/
def keyParts (fuel : Nat) : Scan (List String) := do
  match fuel with
  | 0 => failure
  | fuel + 1 =>
    blanks
    let part ← keyPart fuel
    blanks
    if ← accept "." then return part :: (← keyParts fuel) else return [part]

/-- A key: all its parts but the last, and the last one. -/
def key (fuel : Nat) : Scan (List String × String) := do
  let parts ← keyParts fuel
  guard (parts.length ≤ maxLevels)
  match parts.getLast? with
  | some last => return (parts.dropLast, last)
  | none => failure

/-! ### Values -/

/-- A literal. A date and a time may have a space between them. -/
def literal : Scan Value := do
  let part ← span isLiteralChar
  let rest ← get
  let timeFollows := match rest with
    | ' ' :: c :: _ => isDate part && Text.isDigit c
    | _ => false
  if timeFollows then
    expect " "
    let time ← span isLiteralChar
    literal? (part ++ ' ' :: time)
  else literal? part

mutual

/-- A value of at most `levels` levels. -/
def value (levels fuel : Nat) : Scan Value := do
  match fuel with
  | 0 => failure
  | fuel + 1 =>
    match ← peek with
    | some '"' =>
      expect "\""
      return .scalar (.text (← string fuel '"'))
    | some '\'' =>
      expect "'"
      return .scalar (.text (← string fuel '\''))
    | some '[' =>
      guard (levels ≠ 0)
      expect "["
      return .array (← items (levels - 1) fuel)
    | some '\x7b' =>
      guard (levels ≠ 0)
      expect "\x7b"
      blanks
      if ← accept "\x7d" then return .table .inline []
      return .table .inline (← members (levels - 1) fuel (.inline, []))
    | _ => literal

/-- The items of an array and its end. A comma may follow the last item. -/
def items (levels fuel : Nat) : Scan (List Value) := do
  match fuel with
  | 0 => failure
  | fuel + 1 =>
    filler fuel
    if ← accept "]" then return []
    let v ← value levels fuel
    filler fuel
    if ← accept "," then return v :: (← items levels fuel)
    expect "]"
    return [v]

/-- The fields of a table in braces and its end, added to fields already read. -/
def members (levels fuel : Nat) (table : Fields.Piece) : Scan Fields := do
  match fuel with
  | 0 => failure
  | fuel + 1 =>
    let (path, last) ← key fuel
    expect "="
    blanks
    let v ← value levels fuel
    let table ← Fields.insert path last v table
    blanks
    if ← accept "," then members levels fuel table
    else
      expect "\x7d"
      return table.2

end

/-! ### Documents -/

/-- A document that is read in part: its fields, and where the following fields belong. -/
structure Document where
  fields : Fields
  header : List String

/-- Reads one line or the beginning of one, and all of a field that goes on over several lines. -/
def line (fuel : Nat) (d : Document) : Scan Document := do
  if ← newline then return d
  match ← peek with
  | some '#' =>
    lineEnd
    return d
  | some '[' =>
    expect "["
    let repeated ← accept "["
    let (path, last) ← key fuel
    expect (if repeated then "]]" else "]")
    let fields ← if repeated then d.fields.openRow path last else d.fields.openTable path last
    lineEnd
    return ⟨fields, path ++ [last]⟩
  | _ =>
    let (path, last) ← key fuel
    expect "="
    blanks
    let v ← value maxLevels fuel
    lineEnd
    let fields ← d.fields.underHeader d.header (Fields.insert path last v)
    return { d with fields := fields }

/-- Reads lines up to the end of the text. -/
def lines (fuel : Nat) (d : Document) : Scan Document := do
  match fuel with
  | 0 => failure
  | fuel + 1 =>
    blanks
    if (← get).isEmpty then return d
    lines fuel (← line fuel d)

end Scan

/-- The fields of the document that a text is. A byte order mark at its beginning is passed over.
The document itself must not stand for a date or time. -/
def Fields.ofText? (s : String) : Option Fields := do
  let cs := match s.toList with
    | '\ufeff' :: cs => cs
    | cs => cs
  let (d, _) ← Scan.lines (2 * cs.length + 2) ⟨[], []⟩ cs
  guard !Fields.isDateTime d.fields
  Fields.settle? d.fields

end TreeMachine.Toml
