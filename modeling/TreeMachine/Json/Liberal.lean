import TreeMachine.Json.Value
import TreeMachine.Number.Nearest
import TreeMachine.Text.Alphanumeric
import TreeMachine.Text.Scan

/-!
# JSON5

A more liberal notation for JSON values: there are comments, commas may follow the last part, keys
can do without quotes, strings can have single quotes and go on over several lines, and numbers can
be infinite, undefined or hexadecimal. On the other hand an integer must fit 64 bits with a sign,
and a double must be finite unless it is written as infinite or undefined.

The values are the same as those of the usual notation, but the reader shares nothing with the one
for that. There a text is first made into a tree with its literals unread; here values are read at
once by three functions that call each other (`Liberal.value`, `Liberal.items`, `Liberal.members`),
as there is no part of the program that would want the tree.

Surrogates are accepted in pairs only, each written as an escape of its own. An escape of any other
character stands for the character, digits apart. A key without quotes is a name, where names are
made of letters and digits of all scripts.

Signs are read before it is known what kind of number follows, so it is said for each kind which
signs go with it (`Liberal.number`). Readers that repeat take fuel, one unit for each turn; twice
the length of the text and two more is always enough. Nesting is not limited.
-/

namespace TreeMachine.Json.Liberal

open TreeMachine.Scan

/-! ### Blanks -/

/-- Whether a character ends a line. -/
def isLineEnd (c : Char) : Bool :=
  c ∈ ['\n', '\r', '\u2028', '\u2029']

/-- Whether a character is blank. -/
def isBlank (c : Char) : Bool :=
  (Text.isBlank c && c != '\u0085') || c == '\ufeff'

/-- Consumes the rest of a comment up to its closing mark. -/
def longComment (fuel : Nat) : Scan Unit := do
  match fuel with
  | 0 => failure
  | fuel + 1 =>
    if ← accept "*/" then return
    discard next
    longComment fuel

/-- Consumes blanks and comments. -/
def filler (fuel : Nat) : Scan Unit := do
  match fuel with
  | 0 => failure
  | fuel + 1 =>
    discard (span isBlank)
    if ← accept "/*" then
      longComment fuel
      filler fuel
    else if ← accept "//" then
      discard (span fun c => !isLineEnd c)
      filler fuel

/-! ### Strings and keys -/

/-- The character of a number of digits of base sixteen. Two halves of a surrogate pair make up one
character. -/
def codePoint (count : Nat) : Scan Char := do
  let code ← Text.readHex? (← take count)
  if 0xD800 ≤ code ∧ code < 0xDC00 then
    expect "\\u"
    let low ← Text.readHex? (← take 4)
    guard (0xDC00 ≤ low ∧ low < 0xE000)
    return ← Text.charOfCode? (0x10000 + (code - 0xD800) * 0x400 + (low - 0xDC00))
  else return ← Text.charOfCode? code

/-- The characters that the text after a backslash stands for. -/
def escaped : Scan (List Char) := do
  let c ← next
  match c with
  | 'b' => return ['\x08']
  | 'f' => return ['\x0c']
  | 'n' => return ['\n']
  | 'r' => return ['\r']
  | 't' => return ['\t']
  | 'v' => return ['\x0b']
  | '0' => return ['\x00']
  | 'x' => return [← codePoint 2]
  | 'u' => return [← codePoint 4]
  | '\r' =>
    discard (accept "\n")
    return []
  | c =>
    if isLineEnd c then return []
    guard !Text.isDigit c
    return [c]

/-- The characters of a string up to its closing quote. -/
def string (quote : Char) (fuel : Nat) : Scan (List Char) := do
  match fuel with
  | 0 => failure
  | fuel + 1 =>
    let c ← next
    if c = quote then return []
    guard !isLineEnd c
    let part ← if c = '\\' then escaped else pure [c]
    return part ++ (← string quote fuel)

/-- Whether a character can be part of a name, and whether it can be the first one. -/
def isNameChar (first : Bool) (c : Char) : Bool :=
  c == '$' || c == '_' ||
    (Text.isAlphanumeric c && !(first && Text.isDigit c)) ||
    (!first && (c == '\u200c' || c == '\u200d'))

/-- The characters of a key without quotes. -/
def name (first : Bool) (fuel : Nat) : Scan (List Char) := do
  match fuel with
  | 0 => failure
  | fuel + 1 =>
    match ← peek with
    | some c =>
      if c = '\\' then
        expect "\\u"
        let c ← codePoint 4
        return c :: (← name false fuel)
      else if isNameChar first c then
        discard next
        return c :: (← name false fuel)
      else
        guard !first
        return []
    | none =>
      guard !first
      return []

/-- A key. -/
def key (fuel : Nat) : Scan String := do
  if ← accept "\"" then return .ofList (← string '"' fuel)
  if ← accept "'" then return .ofList (← string '\'' fuel)
  return .ofList (← name true fuel)

/-! ### Numbers -/

/-- Consumes the digits of an exponent with its mark, if there are any. -/
def exponent : Scan (List Char) := do
  let before ← get
  match before with
  | c :: cs =>
    if c = 'e' ∨ c = 'E' then
      let (sign, cs) := match cs with
        | '+' :: cs => (['+'], cs)
        | '-' :: cs => (['-'], cs)
        | cs => ([], cs)
      let (digits, rest) := cs.span Text.isDigit
      if digits.isEmpty then return []
      set rest
      return c :: sign ++ digits
    else return []
  | [] => return []

/-- The text of a decimal number without a sign. -/
def decimal : Scan (List Char) := do
  let whole ← if ← accept "0" then pure ['0'] else span Text.isDigit
  let point ← accept "."
  let fraction ← if point then span Text.isDigit else pure []
  guard !(whole.isEmpty && fraction.isEmpty)
  let exponent ← exponent
  return whole ++ (if point then '.' :: fraction else []) ++ exponent

/-- The value of the text of a decimal number, which is an integer if it has neither a point nor an
exponent. -/
def decimalValue? (cs : List Char) : Option Number :=
  if cs.all fun c => Text.isDigit c || c == '+' || c == '-' then
    (Text.readInt64? cs).map fun n => .int n.toInt
  else (Number.readFloat? cs).bind fun x => if x.isFinite then some (.float x) else none

/-- A number. Only a decimal number may have a plus sign, and a hexadecimal one no sign at all. -/
def number : Scan Number := do
  let sign ← span fun c => c == '+' || c == '-'
  guard (sign.length ≤ 1)
  if ← accept "Infinity" then
    guard (sign ≠ ['+'])
    return .float (if sign = [] then Number.infinity else -Number.infinity)
  if ← accept "NaN" then
    guard (sign ≠ ['+'])
    return .float Number.notANumber
  match ← get with
  | '0' :: x :: cs =>
    let (digits, rest) := cs.span Text.isHexDigit
    if (x = 'x' ∨ x = 'X') ∧ !digits.isEmpty then
      set rest
      let n := Text.ofBase 16 digits
      guard (sign.isEmpty && n ≤ Word.max32)
      return .int n
  | _ => pure ()
  let digits ← decimal
  return ← decimalValue? (sign ++ digits)

/-! ### Values -/

mutual

/-- A value. -/
def value (fuel : Nat) : Scan Value := do
  match fuel with
  | 0 => failure
  | fuel + 1 =>
    if ← accept "null" then return .null
    if ← accept "true" then return .bool true
    if ← accept "false" then return .bool false
    if ← accept "\"" then return .string (.ofList (← string '"' fuel))
    if ← accept "'" then return .string (.ofList (← string '\'' fuel))
    if ← accept "[" then return .array (← items fuel)
    if ← accept "\x7b" then return .object (← members fuel)
    return .number (← number)

/-- The items of an array and its end. -/
def items (fuel : Nat) : Scan (List Value) := do
  match fuel with
  | 0 => failure
  | fuel + 1 =>
    filler fuel
    if ← accept "]" then return []
    let v ← value fuel
    filler fuel
    if ← accept "," then return v :: (← items fuel)
    expect "]"
    return [v]

/-- The fields of an object and its end. -/
def members (fuel : Nat) : Scan (List (String × Value)) := do
  match fuel with
  | 0 => failure
  | fuel + 1 =>
    filler fuel
    if ← accept "\x7d" then return []
    let k ← key fuel
    filler fuel
    expect ":"
    filler fuel
    let v ← value fuel
    filler fuel
    if ← accept "," then return (k, v) :: (← members fuel)
    expect "\x7d"
    return [(k, v)]

end

/-- A value with blanks and comments around it. -/
def document (fuel : Nat) : Scan Value := do
  filler fuel
  let v ← value fuel
  filler fuel
  return v

end Liberal

/-- The value of a text in the liberal notation. -/
def Value.ofLiberalText? (s : String) : Option Value :=
  let cs := s.toList
  (Liberal.document (2 * cs.length + 2)).all? cs

end TreeMachine.Json
