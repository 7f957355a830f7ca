import TreeMachine.Text.Blank
import TreeMachine.Text.Decimal
import TreeMachine.Text.Scan

/-!
# Reading INI

A document has properties, which are keys and texts, first of its own and then in named sections.
Comments take whole lines. Keys and section names can go on over several lines; texts end with their
line.

The reader goes from one part of the text to the next. It keeps the document that it has read and,
between a key and its text, the key (`Scan.State`). Each part is recognized by its first character:
a comment, a section in brackets, or the sign between a key and its text; everything else is a key.
A key ends at the sign only, so that it may contain line ends.

Backslashes escape characters in names, keys and texts, and a backslash at the end of a line takes
the line end away. A text may have parts in quotes, in which line ends stay, followed by the rest of
the line.

That a comment must be at the beginning of a line is decided by the blanks before it, so the reader
is told whether it is at one (`Scan.blanks`). Readers that repeat take fuel, one unit for each turn;
twice the length of the text and two more is always enough.
-/

namespace TreeMachine.Ini

/-- Properties in the order in which they are written. A key may occur more than once. -/
abbrev Properties := List (String × String)

/-- A document: the properties before the first section, and the sections. A name may occur more
than once. -/
structure Document where
  properties : Properties
  sections : List (String × Properties)

namespace Scan

open TreeMachine.Scan

/-! ### Runs of characters -/

/-- Consumes blanks and tells whether the text after them is at the beginning of a line, given
whether it would be without blanks. -/
def blanks (fresh : Bool) : Scan Bool := do
  let run ← span Text.isBlank
  return (run.getLast?.map (· == '\n')).getD fresh

/-- Consumes the rest of a line and its end. -/
def comment : Scan Unit := do
  discard (span (· != '\n'))
  discard (accept "\n")

/-- The character of four digits of base sixteen, the first of which can be a plus sign. -/
def codePoint : Scan Char := do
  let cs ← take 4
  let ds := if cs.head? = some '+' then cs.drop 1 else cs
  return ← (Text.readHex? ds).bind Text.charOfCode?

/-- The characters that the text after a backslash stands for. -/
def escaped : Scan (List Char) := do
  match ← next with
  | '0' => return ['\x00']
  | 'a' => return ['\x07']
  | 'b' => return ['\x08']
  | 't' => return ['\t']
  | 'r' => return ['\r']
  | 'n' => return ['\n']
  | '\n' => return []
  | 'x' => return [← codePoint]
  | c => return [c]

/-- The characters up to one of some marks, which is not consumed. If there is no mark, the end of
the text may be allowed to take its place. -/
def textUntil (isMark : Char → Bool) (endAllowed : Bool) (fuel : Nat) : Scan (List Char) := do
  match fuel with
  | 0 => failure
  | fuel + 1 =>
    match ← peek with
    | none =>
      guard endAllowed
      return []
    | some c =>
      if isMark c then return []
      discard next
      let part ← if c = '\\' then escaped else pure [c]
      return part ++ (← textUntil isMark endAllowed fuel)

/-! ### Properties and sections -/

/-- The text of a property: parts in quotes, and then what is left of the line. -/
def value (fuel : Nat) : Scan (List Char) := do
  match fuel with
  | 0 => failure
  | fuel + 1 =>
    match ← peek with
    | none => return []
    | some c =>
      if c = '"' ∨ c = '\'' then
        discard next
        let part ← textUntil (· == c) false fuel
        discard next
        return part ++ (← value fuel)
      else textUntil (fun c => c == '\n' || c == '\r') true fuel

/-- What is read so far: the document with its last section and all properties last first, and a key
that still lacks its text. -/
structure State where
  properties : Properties
  sections : List (String × Properties)
  key : List Char

/-- Adds a property to the section that is read. -/
def State.add (s : State) (text : String) : State :=
  let property := (.ofList s.key, text)
  match s.sections with
  | [] => ⟨property :: s.properties, [], []⟩
  | (name, properties) :: sections => ⟨s.properties, (name, property :: properties) :: sections, []⟩

/-- Reads comments, sections, keys and texts up to the end. -/
def parts (fresh : Bool) (s : State) (fuel : Nat) : Scan State := do
  match fuel with
  | 0 => failure
  | fuel + 1 =>
    let fresh ← blanks fresh
    match ← peek with
    | none => return s
    | some c =>
      if c = ';' ∨ c = '#' then
        guard fresh
        comment
        parts true s fuel
      else if c = '[' then
        discard next
        let name ← textUntil (· == ']') false fuel
        discard next
        let name := String.ofList (Text.trimChars name)
        parts false { s with sections := (name, []) :: s.sections } fuel
      else if c = '=' ∨ c = ':' then
        guard !s.key.isEmpty
        discard next
        discard (span fun c => Text.isBlank c && c != '\n' && c != '\r')
        let text := String.ofList (Text.trimChars (← value fuel))
        parts false (s.add text) fuel
      else
        let key ← textUntil (fun c => c == '=' || c == ':') false fuel
        parts false { s with key := Text.trimChars key } fuel

end Scan

/-- The document that a text is. -/
def Document.ofText? (s : String) : Option Document := do
  let cs := s.toList
  let (s, _) ← Scan.parts true ⟨[], [], []⟩ (2 * cs.length + 2) cs
  return ⟨s.properties.reverse, (s.sections.map fun e => (e.1, e.2.reverse)).reverse⟩

end TreeMachine.Ini
