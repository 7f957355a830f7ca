import TreeMachine.Text.Alphanumeric
import TreeMachine.Text.Decimal

/-!
# Files of variables

A file can hold variables for the environment: a name, an equals sign and a value each, parts of
which can be quoted. A variable takes one line, but a line end inside quotes belongs to the value.
In a value, except in single quotes, a dollar sign stands before the name of another variable, whose
value is put there. Blank lines and comments are passed over. The first line that is malformed ends
the file.

This is done in two passes. The first one joins lines that belong together and takes comments off,
for which it only has to know whether it is inside of quotes (`joinLines`). The second one reads a
name and a value from each line (`readLine?`). Both are machines with a few states, and both decide
about quotes and backslashes for themselves, so that they do not agree on every line.

A variable that has a value in the environment keeps it, and so does one that has been given a value
by an earlier line (`withLines`). A name without a value stands for the empty text. The lines before
a malformed one count, and no error is told.
-/

namespace TreeMachine.CommandLine

/-! ### Lines -/

/-- Where a line break is seen from: between the parts of a line, after a blank, inside of single or
double quotes, or after a backslash in one of these places. -/
inductive LineState
  | plain
  | blank
  | escape
  | single
  | singleEscape
  | double
  | doubleEscape
  deriving DecidableEq, Repr

/-- The state after one more character. -/
def LineState.next (s : LineState) (c : Char) : LineState :=
  match s with
  | .plain | .blank =>
    if c = '\\' then .escape
    else if c = '"' then .double
    else if c = '\'' then .single
    else if s = .plain ∧ Text.isBlank c ∧ c ≠ '\n' ∧ c ≠ '\r' then .blank
    else .plain
  | .escape => .plain
  | .double => if c = '\\' then .doubleEscape else if c = '"' then .plain else .double
  | .doubleEscape => .double
  | .single => if c = '\\' then .singleEscape else if c = '\'' then .plain else .single
  | .singleEscape => .single

/-- The part of a line before its comment, and the state at its end, unless it has a comment. A
comment begins at a number sign after a single blank. -/
def untilComment : LineState → List Char → List Char × Option LineState
  | s, [] => ([], some s)
  | s, c :: cs =>
    if s = .blank ∧ c = '#' then ([], none)
    else
      let (part, last) := untilComment (s.next c) cs
      (c :: part, last)

/-- Joins lines that belong together, given the text and the state so far, and takes off comments.
Nothing for an unfinished last line. -/
def joinLines (before : List Char) (s : LineState) : List (List Char) → List (Option (List Char))
  | [] => if before.isEmpty then [] else [none]
  | line :: lines =>
    if ((before ++ line).dropWhile Text.isBlank).head? = some '#' then
      some [] :: joinLines [] .plain lines
    else
      match untilComment s line with
      | (part, none) | (part, some .plain) => some (before ++ part) :: joinLines [] .plain lines
      | (part, some s) => joinLines (before ++ part) s lines

/-- The lines of a text, their ends included. -/
def cutLines : List Char → List (List Char)
  | [] => []
  | c :: cs =>
    if c = '\n' then [c] :: cutLines cs
    else
      match cutLines cs with
      | [] => [[c]]
      | l :: ls => (c :: l) :: ls

/-! ### Names -/

/-- Whether a character can begin a name. -/
def isNameStart (c : Char) : Bool :=
  c.isAlpha || c == '_'

/-- Whether a character can go on a name. -/
def isNameChar (c : Char) : Bool :=
  c.isAlphanum || c == '_' || c == '.'

/-- Reads a name. -/
def name? (cs : List Char) : Option (List Char × List Char) :=
  match cs with
  | c :: _ => if isNameStart c then some (cs.span isNameChar) else none
  | [] => none

/-- Reads the name of a variable, which a word for exporting it may precede. -/
def variableName? (cs : List Char) : Option (List Char × List Char) := do
  let (name, rest) ← name? cs
  let rest := rest.dropWhile Text.isBlank
  if name = "export".toList ∧ rest.head? ≠ some '=' then
    let (name, rest) ← name? rest
    return (name, rest.dropWhile Text.isBlank)
  return (name, rest)

/-! ### Values -/

/-- Where in a value the reader is: outside of quotes, inside of single or double ones, after a
backslash outside or inside of double quotes, in the name of another variable, which may be put in
braces, or after the value. Names are kept last character first. -/
inductive ValueState
  | plain
  | single
  | double
  | escape (inDouble : Bool)
  | name (inDouble : Bool) (rev : List Char)
  | braced (inDouble : Bool) (rev : List Char)
  | ended
  deriving DecidableEq, Repr

/-- The state inside or outside of double quotes. -/
def ValueState.within (inDouble : Bool) : ValueState :=
  if inDouble then .double else .plain

/-- Reads a value from its first character on, given what the names of other variables stand for.
The character that ends a name without braces is part of the value, even a quote. Blanks after a
value can be followed by a comment only. -/
def valueFrom? (meaning : String → String) : ValueState → List Char → Option (List Char)
  | .plain, [] | .ended, [] | .escape false, [] => some []
  | .name false rev, [] => some (meaning (.ofList rev.reverse)).toList
  | .single, [] | .double, [] | .escape true, [] | .name true _, [] | .braced .., [] => none
  | .plain, c :: cs =>
    if c = '$' then valueFrom? meaning (.name false []) cs
    else if c = '\'' then valueFrom? meaning .single cs
    else if c = '"' then valueFrom? meaning .double cs
    else if c = '\\' then valueFrom? meaning (.escape false) cs
    else if c = ' ' ∨ c = '\t' then valueFrom? meaning .ended cs
    else (valueFrom? meaning .plain cs).map (c :: ·)
  | .single, c :: cs =>
    if c = '\'' then valueFrom? meaning .plain cs
    else (valueFrom? meaning .single cs).map (c :: ·)
  | .double, c :: cs =>
    if c = '$' then valueFrom? meaning (.name true []) cs
    else if c = '"' then valueFrom? meaning .plain cs
    else if c = '\\' then valueFrom? meaning (.escape true) cs
    else (valueFrom? meaning .double cs).map (c :: ·)
  | .escape inDouble, c :: cs =>
    let after := valueFrom? meaning (.within inDouble) cs
    if c = 'n' then after.map ('\n' :: ·)
    else if c ∈ ['\\', '\'', '"', '$', ' '] then after.map (c :: ·)
    else none
  | .name inDouble rev, c :: cs =>
    if Text.isAlphanumeric c then valueFrom? meaning (.name inDouble (c :: rev)) cs
    else if c = '\x7b' ∧ rev = [] then valueFrom? meaning (.braced inDouble []) cs
    else
      let value := (meaning (.ofList rev.reverse)).toList
      if c = '$' then (valueFrom? meaning (.name inDouble []) cs).map (value ++ ·)
      else (valueFrom? meaning (.within inDouble) cs).map (value ++ c :: ·)
  | .braced inDouble rev, c :: cs =>
    if c = '\x7d' then
      (valueFrom? meaning (.within inDouble) cs).map ((meaning (.ofList rev.reverse)).toList ++ ·)
    else valueFrom? meaning (.braced inDouble (c :: rev)) cs
  | .ended, c :: cs =>
    if c = ' ' ∨ c = '\t' then valueFrom? meaning .ended cs
    else if c = '#' then some []
    else none

/-! ### Files -/

/-- Reads a line: nothing for a malformed one, and no variable for a blank one. -/
def readLine? (meaning : String → String) (line : List Char) : Option (Option (String × String)) :=
  match Text.trimChars line with
  | [] | '#' :: _ => some none
  | cs => do
    let (name, rest) ← variableName? cs
    match rest with
    | '=' :: rest =>
      let rest := rest.dropWhile Text.isBlank
      let value ← if rest.head? = some '#' then some [] else valueFrom? meaning .plain rest
      return some (.ofList name, .ofList value)
    | _ => none

/-- The environment with the variables of some lines, up to the first malformed one. A variable is
given only to a name that has no value yet. -/
def withLines (environment : List (String × String)) :
    List (Option (List Char)) → List (String × String)
  | [] | none :: _ => environment
  | some line :: lines =>
    match readLine? (fun name => (environment.lookup name).getD "") line with
    | none => environment
    | some none => withLines environment lines
    | some (some v) =>
      withLines (if (environment.lookup v.1).isSome then environment else environment ++ [v]) lines

/-- The environment with the variables of a file. A byte order mark at its beginning is passed
over. -/
def withVariables (environment : List (String × String)) (text : String) :
    List (String × String) :=
  let cs := match text.toList with
    | '\ufeff' :: cs => cs
    | cs => cs
  withLines environment (joinLines [] .plain (cutLines cs))

end TreeMachine.CommandLine
