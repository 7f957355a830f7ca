import TreeMachine.Json.Literal

/-!
# JSON trees

The structure of a JSON text with its literals unread: numbers keep their digits and strings their
escapes. A text can be a well-formed tree although some literal in it denotes nothing, a number
beyond the largest double or half of a surrogate pair; whether that matters depends on who reads the
tree.

For program definitions it does make a difference. There are objects in which the values of unknown
keys are passed over without being looked at, and others that are read as a whole before they are
used. The former accept any tree under an unknown key, and the latter do not.

A tree is written without blanks, and its literals are written as they are (`Tree.text`).
-/

namespace TreeMachine.Json

/-- The structure of a JSON text. Strings and keys are the text between their quotes. -/
inductive Tree
  | null
  | bool (b : Bool)
  | number (l : Literal)
  | string (raw : List Char)
  | array (items : List Tree)
  | object (fields : List (List Char × Tree))

/-- A string between its quotes. -/
def quoted (raw : List Char) : List Char :=
  '"' :: raw ++ ['"']

mutual

/-- The text of a tree, without blanks. -/
def Tree.text : Tree → List Char
  | .null => "null".toList
  | .bool true => "true".toList
  | .bool false => "false".toList
  | .number l => l.text
  | .string raw => quoted raw
  | .array [] => ['[', ']']
  | .array (t :: ts) => '[' :: t.text ++ Tree.restText ts
  | .object [] => ['\x7b', '\x7d']
  | .object ((k, t) :: fs) => '\x7b' :: quoted k ++ ':' :: t.text ++ Tree.restFieldsText fs

/-- The text of the further items of an array. -/
def Tree.restText : List Tree → List Char
  | [] => [']']
  | t :: ts => ',' :: t.text ++ Tree.restText ts

/-- The text of the further fields of an object. -/
def Tree.restFieldsText : List (List Char × Tree) → List Char
  | [] => ['\x7d']
  | (k, t) :: fs => ',' :: quoted k ++ ':' :: t.text ++ Tree.restFieldsText fs

end

end TreeMachine.Json
