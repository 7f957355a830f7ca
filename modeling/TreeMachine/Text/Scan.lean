/-!
# Scanning

A scan reads from the beginning of a text and leaves the rest, or fails. Scans that repeat take
fuel, one unit for each turn.

The notations for configuration files are all read by scans, except for those that need more state
than the rest of the text. A scan that fails gives no text back, so that something else can be tried
from the same place. Mostly this is not needed, as the next character decides.
-/

namespace TreeMachine

/-- Reading from the beginning of a text: what is read, and the text after it. -/
abbrev Scan := StateT (List Char) Option

namespace Scan

/-- What a scan reads from a text, if it can read all of it. -/
def all? {α : Type} (scan : Scan α) (cs : List Char) : Option α :=
  match scan cs with
  | some (a, []) => some a
  | _ => none

/-- The next character, which is not consumed. -/
def peek : Scan (Option Char) :=
  return (← get).head?

/-- Consumes the next character. -/
def next : Scan Char := do
  match ← get with
  | [] => failure
  | c :: cs =>
    set cs
    return c

/-- Consumes a number of characters. -/
def take (count : Nat) : Scan (List Char) := do
  let cs ← get
  guard (count ≤ cs.length)
  set (cs.drop count)
  return cs.take count

/-- Consumes a text if it comes next. -/
def accept (text : String) : Scan Bool := do
  let cs ← get
  if text.toList.isPrefixOf cs then
    set (cs.drop text.length)
    return true
  else return false

/-- Consumes a text that must come next. -/
def expect (text : String) : Scan Unit := do
  guard (← accept text)

/-- Consumes the longest run of characters of a class. -/
def span (isPart : Char → Bool) : Scan (List Char) := do
  let (part, rest) := (← get).span isPart
  set rest
  return part

end Scan

end TreeMachine
