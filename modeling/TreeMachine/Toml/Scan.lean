import TreeMachine.Text.Scan
import TreeMachine.Toml.Literal

/-!
# The small parts of TOML

Blanks, comments, line ends and strings. Strings come in four forms, with single or double quotes
and on one line or on several. The two forms on one line are read by one definition and the two long
ones by another, with the quote and whether there are escapes as parameters (`Scan.shortString`,
`Scan.longString`).

The end of a long string takes some care. Three quotes close it, but up to two more may come before
them and belong to the string; so the quotes are counted first, and what is over three is given to
the string. A line end right after the opening quotes is not part of the string, and one after a
backslash is passed over together with all blank space after it. In a long string every line end is
read as a newline.

Control characters other than tabs are refused in comments and strings. Line ends are newlines with
or without a carriage return, which does not stand alone.

Readers that repeat take fuel, one unit for each turn; the length of the text is always enough.
-/

namespace TreeMachine.Toml

namespace Scan

open TreeMachine.Scan

/-! ### Blanks, comments and line ends -/

/-- Consumes spaces and tabs. -/
def blanks : Scan Unit :=
  discard (span fun c => c == ' ' || c == '\t')

/-- Whether a character may stand in comments and strings: all but the control characters, of which
only the tab is allowed. -/
def isPlain (c : Char) : Bool :=
  c == '\t' || (' ' ≤ c && c ≠ '\x7f')

/-- Consumes a comment if there is one. -/
def comment : Scan Unit := do
  if ← accept "#" then discard (span isPlain)

/-- Consumes the end of a line if it comes next. -/
def newline : Scan Bool := do
  if ← accept "\n" then return true else accept "\r\n"

/-- Consumes the rest of a line, which may hold a comment. The last line need not have an end. -/
def lineEnd : Scan Unit := do
  blanks
  comment
  if ← newline then return
  guard (← get).isEmpty

/-- Consumes blanks and line ends. -/
def blankLines (fuel : Nat) : Scan Unit := do
  match fuel with
  | 0 => failure
  | fuel + 1 =>
    blanks
    if ← newline then blankLines fuel

/-- Consumes blanks, comments and line ends. -/
def filler (fuel : Nat) : Scan Unit := do
  match fuel with
  | 0 => failure
  | fuel + 1 =>
    blanks
    comment
    if ← newline then filler fuel

/-! ### Strings -/

/-- The character of a code point given in a number of hexadecimal digits. -/
def codePoint (count : Nat) : Scan Char := do
  let ds ← take count
  return ← (Text.readHex? ds).bind Text.charOfCode?

/-- The character that the text after a backslash stands for. -/
def escaped : Scan Char := do
  match ← get with
  | [] => failure
  | c :: cs =>
    set cs
    match c with
    | 'b' => return '\x08'
    | 't' => return '\t'
    | 'n' => return '\n'
    | 'f' => return '\x0c'
    | 'r' => return '\r'
    | '"' => return '"'
    | '\\' => return '\\'
    | 'u' => codePoint 4
    | 'U' => codePoint 8
    | _ => failure

/-- The characters up to the quote that ends a string on one line. -/
def shortString (fuel : Nat) (quote : Char) (escapes : Bool) : Scan (List Char) := do
  match fuel, ← get with
  | 0, _ | _, [] => failure
  | fuel + 1, c :: cs =>
    set cs
    if c = quote then return []
    let c ← if c = '\\' ∧ escapes then escaped else (do guard (isPlain c); return c)
    return c :: (← shortString fuel quote escapes)

/-- The characters up to the three quotes that end a string of several lines. Up to two quotes more
belong to the string. A line can be continued after a backslash at its end. -/
def longString (fuel : Nat) (quote : Char) (escapes : Bool) : Scan (List Char) := do
  match fuel, ← get with
  | 0, _ | _, [] => failure
  | fuel + 1, c :: cs =>
    if c = quote then
      let quotes := (← get).takeWhile (· == quote)
      if quotes.length < 3 then
        set cs
        return c :: (← longString fuel quote escapes)
      else
        guard (quotes.length ≤ 5)
        set ((← get).drop quotes.length)
        return quotes.drop 3
    else if ← newline then return '\n' :: (← longString fuel quote escapes)
    else
      set cs
      if c = '\\' ∧ escapes then
        let before ← get
        blanks
        if ← newline then
          blankLines fuel
          longString fuel quote escapes
        else
          set before
          let c ← escaped
          return c :: (← longString fuel quote escapes)
      else
        guard (isPlain c)
        return c :: (← longString fuel quote escapes)

/-- A string after its first quote. -/
def string (fuel : Nat) (quote : Char) : Scan String := do
  let escapes := quote == '"'
  if ← accept (.ofList [quote, quote]) then
    discard newline
    return .ofList (← longString fuel quote escapes)
  else return .ofList (← shortString fuel quote escapes)

end Scan

end TreeMachine.Toml
