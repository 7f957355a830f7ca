import TreeMachine.Number.Nearest
import TreeMachine.Scalar
import TreeMachine.Text.Lowercase

/-!
# Settings

Configuration files and other sources give settings, which are values in nested tables. Where a
setting is needed as a truth value or a number it is converted rather liberally: numbers count as
truth values, truth values as numbers, and texts as whatever they spell.

The same setting can come from a file, where it has a type, from an environment variable, which is
plain text, and from the command line. The conversions are what makes these sources interchangeable.
A variable is first given a type by what it looks like (`Setting.ofText`), and then converted like a
setting of a file.

A conversion fails when the setting is a table, a list or nothing, when a word is unknown, or when
an integer is negative or beyond a limit. Doubles are rounded and cut off at both ends, and do not
fail unless they are beyond the limit then (`Setting.natural?`).
-/

namespace TreeMachine

/-- A setting. It can be nothing at all, which is different from its absence. -/
inductive Setting
  | nothing
  | scalar (s : Scalar)
  | list (items : List Setting)
  | table (fields : List (String × Setting))

/-- Settings by their keys. -/
abbrev Settings := List (String × Setting)

/-! ### Conversions -/

namespace Setting

/-- The truth value that a setting means: numbers other than zero are true, and there are some words
for each of the two. -/
def bool? : Setting → Option Bool
  | .scalar (.bool b) => some b
  | .scalar (.int n) => some (n != 0)
  | .scalar (.float x) => some (x != 0)
  | .scalar (.text s) =>
    let word := Text.lowercase s
    if word ∈ ["1", "true", "on", "yes"] then some true
    else if word ∈ ["0", "false", "off", "no"] then some false
    else none
  | .nothing | .list _ | .table _ => none

/-- The natural number that a setting means, up to a limit of at most `2 ^ 64 - 1`: doubles are
rounded, halves away from zero, and cut off at zero and at `2 ^ 64 - 1`. -/
def natural? (limit : Nat) (v : Setting) : Option Nat :=
  let n : Option Nat := match v with
    | .scalar (.bool b) => some b.toNat
    | .scalar (.int n) => if 0 ≤ n then some n.toInt.toNat else none
    | .scalar (.float x) => some x.round.toUInt64.toNat
    | .scalar (.text s) =>
      let word := Text.lowercase s
      if word ∈ ["true", "on", "yes"] then some 1
      else if word ∈ ["false", "off", "no"] then some 0
      else Text.readUnsigned? Word.max64 word.toList
    | .nothing | .list _ | .table _ => none
  n.filter (· ≤ limit)

/-- The setting that a text means where settings are given as plain text: a truth value, a number,
or the text itself. -/
def ofText (s : String) : Setting :=
  let word := Text.lowercase s
  if word = "true" then .scalar (.bool true)
  else if word = "false" then .scalar (.bool false)
  else
    match Text.readInt64? s.toList, Number.readFloat? s.toList with
    | some n, _ => .scalar (.int n)
    | none, some x => .scalar (.float x)
    | none, none => .scalar (.text s)

end Setting

end TreeMachine
