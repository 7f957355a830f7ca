import TreeMachine.Config.Setting

/-!
# Merging settings

Settings are put into a table one after the other, at paths of keys and of positions in lists. Keys
are taken in lower case. A later setting takes the place of an earlier one, but tables are merged.

A path is written as a key with points and with positions in brackets (`Settings.path`). A key that
cannot be read as a path means itself, as a single key. Negative positions count from the end of the
list, and one that is beyond the end makes the list longer, with nothing in between.

What is on the way of a path and has the wrong kind is replaced: a table is needed for a key, and a
list for a position. In a list nothing is merged. Putting a setting never fails, so sources can be
put on top of each other in any order without looking at what is there already (`Settings.putAll`).
-/

namespace TreeMachine

namespace Setting

/-- A step of a path, into a table or into a list. Negative positions count from the end. -/
inductive Step
  | key (name : String)
  | item (position : Int)
  deriving DecidableEq, Repr

/-! ### Tables and lists -/

/-- The fields of a table; none for what is no table. -/
def fields : Setting → Settings
  | .table fields => fields
  | _ => []

/-- The items of a list; none for what is no list. -/
def items : Setting → List Setting
  | .list items => items
  | _ => []

/-- Changes the setting of a key. -/
def alterField (key : String) (change : Option Setting → Setting) : Settings → Settings
  | [] => [(key, change none)]
  | (k, v) :: fs =>
    if k = key then (k, change (some v)) :: fs else (k, v) :: alterField key change fs

/-- The position in a list of a given length, zero for a position before the beginning. -/
def Step.offset (position : Int) (length : Nat) : Nat :=
  if 0 ≤ position then position.toNat else length - position.natAbs

/-- Changes an item of a list, which is made longer for it if need be. -/
def alterItem (i : Nat) (change : Setting → Setting) (items : List Setting) :
    List Setting :=
  let items := items ++ List.replicate (i + 1 - items.length) .nothing
  items.modify i change

/-! ### Putting settings -/

mutual

/-- What becomes of an old setting when a new one comes in its place. A table is put into the old
one field by field; so an empty table leaves everything as it was. -/
def replacing : Setting → Option Setting → Setting
  | .table [], some old => old
  | .table (f :: fields), old => .table (putFields (f :: fields) (old.elim [] (·.fields)))
  | v, _ => v

/-- Puts the fields of a table into another table. -/
def putFields : Settings → Settings → Settings
  | [], old => old
  | (k, v) :: fields, old =>
    putFields fields (alterField (Text.lowercase k) v.replacing old)

end

/-- Puts a setting at a path from an old one. What is in the way gives way to the tables and lists
of the path. In a list there is no merging. -/
def put (v : Setting) : List Step → Setting → Setting
  | [], _ => v
  | [.key name], old => .table (alterField (Text.lowercase name) v.replacing old.fields)
  | .key name :: path, old =>
    .table <| alterField (Text.lowercase name) (fun inner => v.put path (inner.getD .nothing))
      old.fields
  | .item position :: path, old =>
    .list (alterItem (Step.offset position old.items.length) (v.put path) old.items)

/-! ### Paths -/

/-- Whether a character may stand in a key that is part of a path. -/
def isKeyChar (c : Char) : Bool :=
  c.isAlphanum || c == '_' || c == '-' || c == ' '

/-- Reads a position: an integer of 64 bits with blanks around it. -/
def position? (cs : List Char) : Option Int :=
  let isBlank (c : Char) : Bool := c == ' ' || c == '\t'
  let digits := ((cs.dropWhile isBlank).reverse.dropWhile isBlank).reverse
  if digits.head? = some '+' then none else (Text.readInt64? digits).map Int64.toInt

/-- Reads the steps of a path after its first key. -/
def Step.readAll? (fuel : Nat) (cs : List Char) : Option (List Step) :=
  match fuel, cs with
  | _, [] => some []
  | fuel + 1, '.' :: cs =>
    let (name, rest) := cs.span isKeyChar
    if name.isEmpty then none else (readAll? fuel rest).map (.key (.ofList name) :: ·)
  | fuel + 1, '[' :: cs => do
    match cs.span (· != ']') with
    | (inside, _ :: rest) => return .item (← position? inside) :: (← readAll? fuel rest)
    | (_, []) => none
  | _, _ => none

end Setting

/-- The path that a key at the top means: a first key, and further keys after points and positions
in brackets. A key that is no path means itself. -/
def Settings.path (key : String) : List Setting.Step :=
  let (name, rest) := key.toList.span Setting.isKeyChar
  if name.isEmpty then [.key key]
  else
    match Setting.Step.readAll? rest.length rest with
    | some path => .key (.ofList name) :: path
    | none => [.key key]

/-- Puts settings at the paths that their keys mean, one after the other. -/
def Settings.putAll (new old : Settings) : Settings :=
  (new.foldl (fun old s => s.2.put (path s.1) old) (Setting.table old)).fields

end TreeMachine
