import TreeMachine.Text.Decimal

/-!
# Escaped strings

A string in JSON text stands between quotes. Quotes, backslashes and control characters are escaped
inside it, and any UTF-16 unit may be written as an escape of four hexadecimal digits; characters
beyond the first plane are then written as a pair of surrogates, and a surrogate that is not part of
a pair denotes nothing.

Writing is simpler than reading. A character is written as itself whenever it can be, control
characters by a letter if there is one for them and by four digits otherwise, and surrogates are
never written (`escapeChar`). So not every text that denotes a string is one that is written; but a
string is read back from what it is written as, which is proved elsewhere.

The text between two quotes is kept apart from what it denotes. A reader of JSON text only has to
find the closing quote, and must accept escapes that denote nothing in places that nobody looks at.
-/

namespace TreeMachine.Json

/-- The value of a hexadecimal digit. -/
def hexDigit? (c : Char) : Option Nat :=
  if '0' ≤ c ∧ c ≤ '9' then some (c.toNat - '0'.toNat)
  else if 'a' ≤ c ∧ c ≤ 'f' then some (c.toNat - 'a'.toNat + 10)
  else if 'A' ≤ c ∧ c ≤ 'F' then some (c.toNat - 'A'.toNat + 10)
  else none

/-- The value of a run of hexadecimal digits. -/
def hexValue (cs : List Char) : Nat :=
  cs.foldl (fun n c => n * 16 + (hexDigit? c).getD 0) 0

/-- The character that a one-letter escape stands for. -/
def escaped? (c : Char) : Option Char :=
  if c = '"' ∨ c = '\\' ∨ c = '/' then some c
  else if c = 'b' then some '\x08'
  else if c = 'f' then some '\x0c'
  else if c = 'n' then some '\n'
  else if c = 'r' then some '\r'
  else if c = 't' then some '\t'
  else none

/-- Whether a UTF-16 unit is the first one of a surrogate pair. -/
def isHighSurrogate (unit : Nat) : Bool :=
  0xD800 ≤ unit && unit ≤ 0xDBFF

/-- Whether a UTF-16 unit is the second one of a surrogate pair. -/
def isLowSurrogate (unit : Nat) : Bool :=
  0xDC00 ≤ unit && unit ≤ 0xDFFF

/-- The characters that the text between two quotes denotes. -/
def unescape? : List Char → Option (List Char)
  | [] => some []
  | '\\' :: 'u' :: a :: b :: c :: d :: cs =>
    let unit := hexValue [a, b, c, d]
    if isHighSurrogate unit then
      match cs with
      | '\\' :: 'u' :: e :: f :: g :: h :: cs =>
        let low := hexValue [e, f, g, h]
        if isLowSurrogate low then
          (unescape? cs).map
            (Char.ofNat (0x10000 + (unit - 0xD800) * 0x400 + (low - 0xDC00)) :: ·)
        else none
      | _ => none
    else if isLowSurrogate unit then none
    else (unescape? cs).map (Char.ofNat unit :: ·)
  | '\\' :: c :: cs => (escaped? c).bind fun e => (unescape? cs).map (e :: ·)
  | c :: cs => (unescape? cs).map (c :: ·)

/-- The hexadecimal digit of a number below sixteen. -/
def hexChar (n : Nat) : Char :=
  if n < 10 then Char.ofNat ('0'.toNat + n) else Char.ofNat ('a'.toNat + (n - 10))

/-- A character as it is written between quotes: as itself, unless it is a quote, a backslash or a
control character. -/
def escapeChar (c : Char) : List Char :=
  if c = '"' then ['\\', '"']
  else if c = '\\' then ['\\', '\\']
  else if c = '\x08' then ['\\', 'b']
  else if c = '\x0c' then ['\\', 'f']
  else if c = '\n' then ['\\', 'n']
  else if c = '\r' then ['\\', 'r']
  else if c = '\t' then ['\\', 't']
  else if c.toNat < 0x20 then ['\\', 'u', '0', '0', hexChar (c.toNat / 16), hexChar (c.toNat % 16)]
  else [c]

/-- The text between two quotes that denotes the given characters. -/
def escape (cs : List Char) : List Char :=
  cs.flatMap escapeChar

end TreeMachine.Json
