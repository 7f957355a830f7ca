import TreeMachine.Json.Escape
import TreeMachine.Json.Tree

/-!
# Reading JSON text

A reader goes through a text character by character. It keeps the arrays and objects that are still
open on a stack, what may come next, and the string or word that it is in the middle of. The text is
accepted when the reader has a complete tree at its end. Nesting is not limited here.

The reader is a machine and not a recursive function, so there is no fuel, and what it does on a
text is a fold over the characters (`Tree.ofChars?`). This is also what makes it easy to reason
about: to read two texts one after the other is to go on with the second one from where the first
one has led.

Characters make up tokens, and tokens change the stack. A string or a word is a token only when it
is complete, and a word is complete at the first character that cannot go on with it, which is then
taken in again (`Reader.next`). What may come next after a token is one of six things (`Expected`),
and a token that is not among them ends the reading (`Reader.take`). That a word is a name or has
the form of a number is asked when it is taken in; what numbers and strings denote is not.
-/

namespace TreeMachine.Json

/-- An array or object that has not been closed, its parts last first. A member is an object whose
last key still lacks its value. -/
inductive Open
  | array (items : List Tree)
  | object (fields : List (List Char × Tree))
  | member (fields : List (List Char × Tree)) (key : List Char)

/-- What may come next: a value, the first item of an array or its end, the first key of an object
or its end, a key, a colon, or what follows a value. -/
inductive Expected
  | value
  | firstItem
  | firstKey
  | key
  | colon
  | separator
  deriving DecidableEq

/-- The part of a string or word that has been read, last character first. -/
inductive Partial
  | nothing
  | word (rev : List Char)
  | string (rev : List Char)
  | escape (rev : List Char)
  | hex (rev : List Char) (missing : Nat)

/-- The smallest parts of a JSON text that have a meaning. -/
inductive Token
  | openArray
  | closeArray
  | openObject
  | closeObject
  | comma
  | colon
  | string (raw : List Char)
  | word (cs : List Char)

/-- The state of a reader between two tokens. -/
structure Reader where
  stack : List Open
  expected : Expected
  root : Option Tree

/-- A reader before the first token. -/
def Reader.start : Reader :=
  ⟨[], .value, none⟩

/-- Puts a complete value where it belongs. -/
def Reader.place (r : Reader) (t : Tree) : Option Reader :=
  match r.stack with
  | [] => some ⟨[], .separator, some t⟩
  | .array items :: stack => some { r with stack := .array (t :: items) :: stack,
                                            expected := .separator }
  | .member fields k :: stack => some { r with stack := .object ((k, t) :: fields) :: stack,
                                               expected := .separator }
  | .object _ :: _ => none

/-- The value that a word denotes. -/
def Tree.ofWord? (cs : List Char) : Option Tree :=
  if cs = "null".toList then some .null
  else if cs = "true".toList then some (.bool true)
  else if cs = "false".toList then some (.bool false)
  else (Literal.read? cs).map .number

/-- Takes in a token, if it may come next. -/
def Reader.take (r : Reader) (t : Token) : Option Reader :=
  match r.expected, t, r.stack with
  | .value, .openArray, stack | .firstItem, .openArray, stack =>
    some { r with stack := .array [] :: stack, expected := .firstItem }
  | .value, .openObject, stack | .firstItem, .openObject, stack =>
    some { r with stack := .object [] :: stack, expected := .firstKey }
  | .value, .string raw, _ | .firstItem, .string raw, _ => r.place (.string raw)
  | .value, .word cs, _ | .firstItem, .word cs, _ => (Tree.ofWord? cs).bind r.place
  | .firstItem, .closeArray, .array items :: stack
  | .separator, .closeArray, .array items :: stack =>
    { r with stack }.place (.array items.reverse)
  | .firstKey, .closeObject, .object fields :: stack
  | .separator, .closeObject, .object fields :: stack =>
    { r with stack }.place (.object fields.reverse)
  | .firstKey, .string k, .object fields :: stack | .key, .string k, .object fields :: stack =>
    some { r with stack := .member fields k :: stack, expected := .colon }
  | .colon, .colon, _ => some { r with expected := .value }
  | .separator, .comma, .array _ :: _ => some { r with expected := .value }
  | .separator, .comma, .object _ :: _ => some { r with expected := .key }
  | _, _, _ => none

/-- Whether a character may stand in a word: a number, `true`, `false` or `null`. -/
def isWordChar (c : Char) : Bool :=
  Text.isDigit c || ('a' ≤ c && c ≤ 'z') || ('A' ≤ c && c ≤ 'Z') || c == '+' || c == '-' || c == '.'

/-- Whether a character may stand between two tokens without being part of one. -/
def isSpace (c : Char) : Bool :=
  c == ' ' || c == '\n' || c == '\r' || c == '\t'

/-- The token that a punctuation character is. -/
def Token.ofChar? (c : Char) : Option Token :=
  if c = '[' then some .openArray
  else if c = ']' then some .closeArray
  else if c = '\x7b' then some .openObject
  else if c = '\x7d' then some .closeObject
  else if c = ',' then some .comma
  else if c = ':' then some .colon
  else none

/-- Takes in a character that is not inside a string or word. -/
def Reader.begin (r : Reader) (c : Char) : Option (Reader × Partial) :=
  if isSpace c then some (r, .nothing)
  else if c = '"' then some (r, .string [])
  else if isWordChar c then some (r, .word [c])
  else do
    let t ← Token.ofChar? c
    let r ← r.take t
    return (r, .nothing)

/-- Takes in a character. -/
def Reader.next : Reader × Partial → Char → Option (Reader × Partial)
  | (r, .nothing), c => r.begin c
  | (r, .word rev), c =>
    if isWordChar c then some (r, .word (c :: rev))
    else (r.take (.word rev.reverse)).bind fun r => r.begin c
  | (r, .string rev), c =>
    if c = '"' then (r.take (.string rev.reverse)).map fun r => (r, .nothing)
    else if c = '\\' then some (r, .escape (c :: rev))
    else if c.toNat < 0x20 then none
    else some (r, .string (c :: rev))
  | (r, .escape rev), c =>
    if c = 'u' then some (r, .hex (c :: rev) 4)
    else if (escaped? c).isSome then some (r, .string (c :: rev))
    else none
  | (r, .hex rev missing), c =>
    if (hexDigit? c).isSome then
      some (r, if missing ≤ 1 then .string (c :: rev) else .hex (c :: rev) (missing - 1))
    else none

/-- The tree of a reader at the end of the text. -/
def Reader.finish : Reader × Partial → Option Tree
  | (r, .nothing) => if r.stack.isEmpty then r.root else none
  | (r, .word rev) =>
    (r.take (.word rev.reverse)).bind fun r => if r.stack.isEmpty then r.root else none
  | _ => none

/-- The tree of a text, if it is JSON. -/
def Tree.ofChars? (cs : List Char) : Option Tree :=
  (cs.foldlM Reader.next (Reader.start, .nothing)).bind Reader.finish

/-- The tree of a text, if it is JSON. -/
def Tree.ofText? (s : String) : Option Tree :=
  ofChars? s.toList

end TreeMachine.Json
