import TreeMachine.Json.Reader

/-!
# JSON values

A value is what a tree denotes once its literals are read. Reading fails when a literal denotes
nothing, and when arrays and objects are nested deeper than a given number of levels
(`Tree.value?`). Writing never fails: a double without a literal is written as null.

The levels are counted down on the way into a tree, and scalars need none. For a whole text there
are 127 of them (`maxLevels`). The tree itself is read without a limit, so a text that is nested
more deeply is well-formed, and is refused only where its value is wanted.

Integers of any size are numbers here, as long as they fit 64 bits with a sign or without; beyond
that a number without a point is a double. Objects are lists of fields that keep their order and may
repeat a key. What a repeated key means is decided by those who read the fields.

Both directions go through trees. That a value is read back from what it is written as is not shown
here but where it is used, for program definitions and for snapshots.
-/

namespace TreeMachine.Json

/-- A JSON value. Fields keep their order, and a key may occur more than once. -/
inductive Value
  | null
  | bool (b : Bool)
  | number (n : Number)
  | string (s : String)
  | array (items : List Value)
  | object (fields : List (String × Value))

/-- The string that the text between two quotes denotes. -/
def readString? (raw : List Char) : Option String :=
  (unescape? raw).map .ofList

/-- The number of levels of arrays and objects that a text may have. -/
def maxLevels : Nat := 127

mutual

/-- The value of a tree with at most `levels` levels. -/
def Tree.value? (levels : Nat) : Tree → Option Value
  | .null => some .null
  | .bool b => some (.bool b)
  | .number l => l.number?.map .number
  | .string raw => (readString? raw).map .string
  | .array ts =>
    match levels with
    | 0 => none
    | levels + 1 => (Tree.values? levels ts).map .array
  | .object fs =>
    match levels with
    | 0 => none
    | levels + 1 => (Tree.fieldValues? levels fs).map .object

/-- The values of the items of an array. -/
def Tree.values? (levels : Nat) : List Tree → Option (List Value)
  | [] => some []
  | t :: ts => do
    let v ← t.value? levels
    let vs ← Tree.values? levels ts
    return v :: vs

/-- The values of the fields of an object. -/
def Tree.fieldValues? (levels : Nat) : List (List Char × Tree) → Option (List (String × Value))
  | [] => some []
  | (k, t) :: fs => do
    let key ← readString? k
    let v ← t.value? levels
    let vs ← Tree.fieldValues? levels fs
    return (key, v) :: vs

end

/-- The tree of a number. -/
def Number.tree : Number → Tree
  | .int n => .number (.ofInt n)
  | .float x =>
    match Literal.ofFloat? x with
    | some l => .number l
    | none => .null

mutual

/-- The tree that a value is written as. -/
def Value.tree : Value → Tree
  | .null => .null
  | .bool b => .bool b
  | .number n => n.tree
  | .string s => .string (escape s.toList)
  | .array vs => .array (Value.trees vs)
  | .object fs => .object (Value.fieldTrees fs)

/-- The trees of the items of an array. -/
def Value.trees : List Value → List Tree
  | [] => []
  | v :: vs => v.tree :: Value.trees vs

/-- The trees of the fields of an object. -/
def Value.fieldTrees : List (String × Value) → List (List Char × Tree)
  | [] => []
  | (k, v) :: fs => (escape k.toList, v.tree) :: Value.fieldTrees fs

end

/-- The text of a value, without blanks. -/
def Value.text (v : Value) : String :=
  .ofList v.tree.text

/-- The value of a text, if it is JSON and every literal in it denotes something. -/
def Value.ofText? (s : String) : Option Value :=
  (Tree.ofText? s).bind (Tree.value? maxLevels)

end TreeMachine.Json
