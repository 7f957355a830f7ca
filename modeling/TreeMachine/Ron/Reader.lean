import TreeMachine.Number.Nearest
import TreeMachine.Scalar
import TreeMachine.Text.Scan

/-!
# Reading RON

A notation for values with the look of program text: lists in brackets, tuples and structures in
parentheses, which a name may precede, maps in braces, and numbers, strings and characters. As the
values are used as settings, names in front of parentheses are dropped, tuples are lists and
structures are maps, and a name with nothing after it is a unit.

Whether parentheses hold a tuple or a structure shows after the first name in them, by a colon; so
the reader looks ahead, past blanks and comments (`Scan.beginsStructure`). Lists, tuples, structures
and maps are then read by the same two functions, which are told by what character they end and
whether keys are names or values (`Scan.items`, `Scan.fields`).

Numbers are integers of 64 bits, with a sign or without, unless a character follows that only a
double can have. A number without a sign may be beyond the signed range, and is made a double then.
The digits of an integer may be grouped with underscores, and those of a double may not.

The number of levels is limited: a list, tuple, structure or map is a level, each of its parts is
one, and so is an optional value. Readers that repeat take fuel, one unit for each turn; twice the
length of the text and two more is always enough.
-/

namespace TreeMachine.Ron

/-- A value. Names without anything after them, and empty parentheses, are units; an optional value
is what it holds, or a unit. Keys of maps are any values; those of structures are texts. -/
inductive Value
  | unit
  | scalar (s : Scalar)
  | list (items : List Value)
  | map (fields : List (Value × Value))

namespace Scan

open TreeMachine.Scan

/-! ### Blanks and names -/

/-- Whether a character is blank. -/
def isBlank (c : Char) : Bool :=
  c == ' ' || c == '\t' || c == '\n' || c == '\r'

/-- Consumes the rest of a comment, which can hold further comments. -/
def longComment (levels fuel : Nat) : Scan Unit := do
  match fuel with
  | 0 => failure
  | fuel + 1 =>
    if ← accept "*/" then
      match levels with
      | 0 => return
      | levels + 1 => longComment levels fuel
    else if ← accept "/*" then longComment (levels + 1) fuel
    else
      discard next
      longComment levels fuel

/-- Consumes blanks and comments. -/
def blanks (fuel : Nat) : Scan Unit := do
  match fuel with
  | 0 => failure
  | fuel + 1 =>
    discard (span isBlank)
    if ← accept "//" then
      discard (span (· != '\n'))
      blanks fuel
    else if ← accept "/*" then
      longComment 0 fuel
      blanks fuel

/-- Whether a character can begin a name. -/
def isNameStart (c : Char) : Bool :=
  c.isAlpha || c == '_'

/-- Whether a character can go on a name. -/
def isNameChar (c : Char) : Bool :=
  c.isAlphanum || c == '_'

/-- Whether a character can be part of a raw name. -/
def isRawNameChar (c : Char) : Bool :=
  isNameChar c || c == '.' || c == '+' || c == '-'

/-- The name at the beginning of a text, and the text after it. A raw name is marked. -/
def name? (cs : List Char) : Option (List Char × List Char) :=
  match cs with
  | 'r' :: '"' :: _ | ['r'] => none
  | 'r' :: '#' :: rest =>
    let (name, rest) := rest.span isRawNameChar
    if name.isEmpty then none else some (name, rest)
  | c :: _ => if isNameStart c then some (cs.span isNameChar) else none
  | [] => none

/-- A name. -/
def name : Scan (List Char) := do
  let (name, rest) ← name? (← get)
  set rest
  return name

/-- Consumes a word if it comes next and no name goes on after it. -/
def word (text : String) : Scan Bool := do
  let before ← get
  if ← accept text then
    if ((← peek).map isNameChar).getD false then
      set before
      return false
    return true
  else return false

/-- Consumes a comma between blanks, if there is one. -/
def comma (fuel : Nat) : Scan Bool := do
  blanks fuel
  let found ← accept ","
  if found then blanks fuel
  return found

/-! ### Strings and characters -/

/-- The value of up to six digits of base sixteen in braces. -/
def bracedCode : Scan Char := do
  expect "\x7b"
  let digits ← span Text.isHexDigit
  guard (digits.length ≤ 6)
  expect "\x7d"
  return ← (Text.readHex? digits).bind Text.charOfCode?

/-- The character that the text after a backslash stands for. -/
def escaped : Scan Char := do
  match ← next with
  | '\'' => return '\''
  | '"' => return '"'
  | '\\' => return '\\'
  | 'n' => return '\n'
  | 'r' => return '\r'
  | 't' => return '\t'
  | '0' => return '\x00'
  | 'x' => return ← (Text.readHex? (← take 2)).bind Text.charOfCode?
  | 'u' => bracedCode
  | _ => failure

/-- The characters of a string up to its closing quote. -/
def string (fuel : Nat) : Scan (List Char) := do
  match fuel with
  | 0 => failure
  | fuel + 1 =>
    let c ← next
    if c = '"' then return []
    let c ← if c = '\\' then escaped else pure c
    return c :: (← string fuel)

/-- The characters of a string up to the text that closes it. -/
def rawString (closing : String) (fuel : Nat) : Scan (List Char) := do
  match fuel with
  | 0 => failure
  | fuel + 1 =>
    if ← accept closing then return []
    let c ← next
    return c :: (← rawString closing fuel)

/-- A character after its first quote. -/
def character : Scan Char := do
  let c ← next
  guard (c ≠ '\'')
  let c ← if c = '\\' then escaped else pure c
  expect "'"
  return c

/-! ### Numbers -/

/-- Whether a character can be part of an integer, after the mark of its base. -/
def isIntegerChar (c : Char) : Bool :=
  Text.isHexDigit c || c == '_'

/-- Whether a character can be part of a double. -/
def isFloatChar (c : Char) : Bool :=
  Text.isDigit c || c ∈ ['e', 'E', '.', '+', '-', '_']

/-- The number of digits of a base, which may be grouped with underscores. -/
def digits? (base : Nat) (cs : List Char) : Option Nat :=
  let ds := cs.filter (· != '_')
  if cs.head? = some '_' || ds.isEmpty || ds.any fun d => base ≤ Text.hexDigitValue d then none
  else some (Text.ofBase base ds)

/-- Splits off the mark of a base. -/
def splitBase (cs : List Char) : Nat × List Char :=
  match cs with
  | '0' :: 'x' :: cs => (16, cs)
  | '0' :: 'o' :: cs => (8, cs)
  | '0' :: 'b' :: cs => (2, cs)
  | cs => (10, cs)

/-- The integer at the beginning of a text, and the text after it. It has 64 bits, with a sign if it
is written with one. -/
def integer? (cs : List Char) : Option (Int × List Char) := do
  let (sign, cs) := match cs with
    | '-' :: cs => (some true, cs)
    | '+' :: cs => (some false, cs)
    | cs => (none, cs)
  let (base, cs) := splitBase cs
  let (ds, rest) := cs.span isIntegerChar
  let n : Int ← digits? base ds
  let n := if sign = some true then -n else n
  let most : Int := if sign.isSome then Word.maxSigned else Word.max64
  guard (Word.minSigned ≤ n ∧ n ≤ most)
  return (n, rest)

/-- Whether a text begins with what can only be a double. -/
def beginsFloat (cs : List Char) : Bool :=
  let cs := match cs with
    | '-' :: cs | '+' :: cs => cs
    | cs => cs
  (cs.takeWhile isIntegerChar).length < (cs.takeWhile isFloatChar).length

/-- A number: an integer if it can be one. -/
def number : Scan Scalar := do
  let before ← get
  let whole := if beginsFloat before then none else integer? before
  match whole with
  | some (n, rest) =>
    set rest
    return match Word.signed? n with
      | some n => .int n
      | none => .float (Float.ofInt n)
  | none =>
    let cs ← span isFloatChar
    return .float (← Number.readFloat? cs)

/-! ### Values -/

/-- Whether a structure and no tuple follows an opening parenthesis: a name and a colon. -/
def beginsStructure (fuel : Nat) (cs : List Char) : Option Bool :=
  match name? cs with
  | none => some false
  | some (_, rest) => (do blanks fuel; return (← next) == ':' : Scan Bool).run' rest

/-- The words that stand for values, and their values. -/
def words : List (String × Value) :=
  [("true", .scalar (.bool true)), ("false", .scalar (.bool false)), ("None", .unit),
   ("inf", .scalar (.float Number.infinity)), ("-inf", .scalar (.float (-Number.infinity))),
   ("NaN", .scalar (.float Number.notANumber))]

/-- Consumes a word that stands for a value, if there is one. -/
def wordValue : List (String × Value) → Scan (Option Value)
  | [] => return none
  | (text, v) :: words => do
    if ← word text then return some v else wordValue words

mutual

/-- A value of at most `levels` levels. -/
def value (levels fuel : Nat) : Scan Value := do
  match fuel with
  | 0 => failure
  | fuel + 1 =>
    if let some v ← wordValue words then return v
    if ← word "Some" then
      guard (levels ≠ 0)
      blanks fuel
      expect "("
      blanks fuel
      let v ← value (levels - 1) fuel
      discard (comma fuel)
      expect ")"
      return v
    if ← accept "()" then return .unit
    match name? (← get) with
    | some (_, rest) =>
      set rest
      blanks fuel
      if (← peek) = some '(' then compound levels fuel else return .unit
    | none =>
      match ← peek with
      | some '(' => compound levels fuel
      | some '[' =>
        expect "["
        guard (levels ≠ 0)
        return .list (← items (levels - 1) fuel ']' true)
      | some '\x7b' =>
        expect "\x7b"
        guard (levels ≠ 0)
        return .map (← fields (levels - 1) fuel '\x7d' false true)
      | some '"' =>
        expect "\""
        return .scalar (.text (.ofList (← string fuel)))
      | some 'r' =>
        expect "r"
        let marks ← span (· == '#')
        expect "\""
        return .scalar (.text (.ofList (← rawString (.ofList ('"' :: marks)) fuel)))
      | some '\'' =>
        expect "'"
        return .scalar (.text (String.singleton (← character)))
      | _ => return .scalar (← number)
termination_by structural fuel

/-- A tuple or a structure. -/
def compound (levels fuel : Nat) : Scan Value := do
  match fuel with
  | 0 => failure
  | fuel + 1 =>
    expect "("
    blanks fuel
    guard (levels ≠ 0)
    if ← beginsStructure fuel (← get) then
      return .map (← fields (levels - 1) fuel ')' true true)
    else return .list (← items (levels - 1) fuel ')' true)
termination_by structural fuel

/-- The items of a list or tuple and its end, given whether an item may come next. -/
def items (levels fuel : Nat) (closing : Char) (more : Bool) : Scan (List Value) := do
  match fuel with
  | 0 => failure
  | fuel + 1 =>
    blanks fuel
    if ← accept (String.singleton closing) then return []
    guard (more && levels != 0)
    let v ← value (levels - 1) fuel
    let more ← comma fuel
    return v :: (← items levels fuel closing more)
termination_by structural fuel

/-- The fields of a map or structure and its end, given whether a field may come next. -/
def fields (levels fuel : Nat) (closing : Char) (named more : Bool) :
    Scan (List (Value × Value)) := do
  match fuel with
  | 0 => failure
  | fuel + 1 =>
    blanks fuel
    if ← accept (String.singleton closing) then return []
    guard (more && levels != 0)
    let k ←
      if named then (do return .scalar (.text (.ofList (← name)))) else value (levels - 1) fuel
    blanks fuel
    expect ":"
    blanks fuel
    let v ← value (levels - 1) fuel
    let more ← comma fuel
    return (k, v) :: (← fields levels fuel closing named more)
termination_by structural fuel

end

/-! ### Documents -/

/-- The extensions of the notation that a text may ask for. They make no difference here. -/
def extensions : List String :=
  ["unwrap_newtypes", "implicit_some", "unwrap_variant_newtypes"]

/-- The names of extensions up to the end of the list. -/
def extensionNames (fuel : Nat) : Scan Unit := do
  match fuel with
  | 0 => failure
  | fuel + 1 =>
    guard (String.ofList (← name) ∈ extensions)
    let more ← comma fuel
    if ((← peek).map isNameChar).getD false then
      guard more
      extensionNames fuel

/-- Consumes texts that must come next, with blanks before and after each one. -/
def marks (fuel : Nat) : List String → Scan Unit
  | [] => blanks fuel
  | text :: texts => do
    blanks fuel
    expect text
    marks fuel texts

/-- Consumes the extensions that are asked for. -/
def attributes (fuel : Nat) : Scan Unit := do
  match fuel with
  | 0 => failure
  | fuel + 1 =>
    if (← peek) = some '#' then
      marks fuel ["#", "!", "[", "enable", "("]
      extensionNames fuel
      marks fuel [")", "]"]
      attributes fuel

/-- The number of levels that a text may have. -/
def maxLevels : Nat := 128

/-- A value with blanks and comments around it, and the extensions it asks for before it. -/
def document (fuel : Nat) : Scan Value := do
  blanks fuel
  attributes fuel
  let v ← value maxLevels fuel
  blanks fuel
  return v

end Scan

/-- The value of a text. -/
def Value.ofText? (s : String) : Option Value :=
  let cs := s.toList
  (Scan.document (2 * cs.length + 2)).all? cs

end TreeMachine.Ron
