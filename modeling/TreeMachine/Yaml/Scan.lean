import TreeMachine.Text.Decimal

/-!
# The small parts of YAML

A text is scanned for tokens, with the place of each one in mind: the columns decide what belongs
together. This module has the state of a scanner, and how it reads scalars, tags, anchors and
directives. Which token comes next, and where blocks begin and end, is decided one module further
on.

A scalar may be written in five ways: plain, in single or double quotes, or as a block that keeps or
joins its lines. Those that go on over several lines have one thing in common. A single line end
between two words is a space and further ones stay, so what is between two words is first taken up
as a gap (`Lex.Gap`) and only turned into text when it is known that another word follows. In a
block that joins its lines the same holds line by line, except next to lines that begin with a
blank.

The scanner keeps more than the text and its place. It keeps the columns that it will go back to,
the tokens that may turn out to be keys, and what is open in brackets and braces, since most of
these decide whether a scalar may begin at a place or go on there.

Readers that repeat take fuel, one unit for each turn, and fail without it. They are given more than
they use, so that the fuel does not show in a result. Texts that are refused have no token and no
message: why a file cannot be read is not told apart.
-/

namespace TreeMachine.Yaml

/-! ### Characters -/

/-- Whether a character ends a line. -/
def isBreak (c : Char) : Bool :=
  c == '\n' || c == '\r'

/-- Whether a character is a space or a tab. -/
def isBlank (c : Char) : Bool :=
  c == ' ' || c == '\t'

/-- Whether there is no character, or one that ends a line. -/
def endsLine (c : Option Char) : Bool :=
  c.all isBreak

/-- Whether there is no character, or one that ends a line or is blank. -/
def endsWord (c : Option Char) : Bool :=
  c.all fun c => isBreak c || isBlank c

/-- Whether a character has a meaning of its own inside brackets and braces. -/
def isFlowMark (c : Char) : Bool :=
  c ∈ [',', '[', ']', '\x7b', '\x7d']

/-- Whether a character can be part of the handle of a tag or the name of a directive. -/
def isNameChar (c : Char) : Bool :=
  c.isAlphanum || c == '_' || c == '-'

/-- Whether a character can be part of the name of an anchor. -/
def isAnchorChar (c : Char) : Bool :=
  !(isBreak c || isBlank c || isFlowMark c || c == '\ufeff')

/-- Whether a character can be part of a tag in full. -/
def isUriChar (c : Char) : Bool :=
  isNameChar c || c ∈ "#;/?:@&=+$,.!~*'()[]%".toList

/-- Whether a character can be part of a tag after its handle. -/
def isTagChar (c : Char) : Bool :=
  isUriChar c && !isFlowMark c && c != '!'

/-! ### Tokens and scanners -/

/-- The smallest parts of a text that have a meaning. -/
inductive Token
  | version
  | tagDirective (handle start : String)
  | documentStart
  | documentEnd
  | blockSequence
  | blockMapping
  | blockEnd
  | flowSequence
  | flowSequenceEnd
  | flowMapping
  | flowMappingEnd
  | blockEntry
  | flowEntry
  | key
  | value
  | alias (name : String)
  | anchor (name : String)
  | tag (handle suffix : String)
  | scalar (plain : Bool) (text : String)
  deriving DecidableEq, Repr

/-- A place in a text. -/
structure Place where
  index : Nat
  line : Nat
  column : Nat
  deriving DecidableEq, Repr

/-- A token that is a key if a colon follows soon, by its position among the tokens. A required one
must be a key. -/
structure PossibleKey where
  position : Nat
  place : Place
  required : Bool
  deriving DecidableEq, Repr

/-- A column that is remembered while the text is further in. Mostly a block begins there; but what
belongs to a key or a dash must be one column further in even when it is no block. -/
structure Indent where
  column : Int
  isBlock : Bool
  deriving DecidableEq, Repr

/-- The state of a scanner. -/
structure Scanner where
  /-- The rest of the text. -/
  rest : List Char
  /-- The place of the rest of the text. -/
  place : Place
  /-- Whether there were only blanks in the line so far. -/
  leading : Bool
  /-- The tokens so far. -/
  tokens : Array Token
  /-- The column of the last token if it is an anchor or a tag. -/
  property : Option Nat
  /-- The possible key of each level of brackets and braces, innermost first. -/
  keys : List (Option PossibleKey)
  /-- Whether there can be a key now. -/
  keyAllowed : Bool
  /-- The current column. -/
  indent : Int
  /-- The columns to go back to, innermost first. -/
  indents : List Indent
  /-- The number of open brackets and braces. -/
  flowLevel : Nat
  /-- Whether a map in braces or after a question mark was the last to begin. -/
  mapBegun : Bool
  /-- For each open bracket, innermost first, whether a map without braces is open in it. -/
  bareMaps : List Bool
  /-- Where a colon can be followed directly by a value. -/
  adjacent : Nat

/-- Scanning a text. -/
abbrev Lex := StateT Scanner Option

namespace Lex

/-- A character of the rest of the text, by its distance. -/
def look (distance : Nat) : Lex (Option Char) :=
  return (← get).rest[distance]?

/-- Consumes a character. -/
def next : Lex Char := do
  let s ← get
  match s.rest with
  | [] => failure
  | c :: cs =>
    let p := s.place
    let ends := c == '\n' || (c == '\r' && cs.head? != some '\n')
    let place : Place :=
      if ends then ⟨p.index + 1, p.line + 1, 0⟩ else ⟨p.index + 1, p.line, p.column + 1⟩
    set { s with rest := cs, place := place, leading := ends || (s.leading && isBlank c) }
    return c

/-- Consumes a number of characters. -/
def skip : Nat → Lex Unit
  | 0 => return
  | count + 1 => do
    discard next
    skip count

/-- Consumes the longest run of characters of a class. -/
def span (isPart : Char → Bool) : Lex (List Char) := do
  let part := (← get).rest.takeWhile isPart
  skip part.length
  return part

/-- Consumes the end of a line if it comes next. -/
def lineBreak : Lex Bool := do
  match (← get).rest with
  | '\r' :: '\n' :: _ =>
    skip 2
    return true
  | c :: _ =>
    if isBreak c then skip 1
    return isBreak c
  | [] => return false

/-- Consumes blanks and a comment, which needs a blank before it. Tabs may not count as blanks. The
result has the blanks. -/
def blanks (tabs : Bool) : Lex (List Char) := do
  let part ← span fun c => c == ' ' || (tabs && c == '\t')
  if (← look 0) = some '#' then
    guard !part.isEmpty
    discard (span (!isBreak ·))
  return part

/-- Whether the rest of the text begins with three times the same mark as a word. -/
def marksDocument (mark : Char) : Lex Bool := do
  let s ← get
  return s.place.column == 0 && s.rest.take 3 == [mark, mark, mark] && endsWord s.rest[3]?

/-! ### Names, tags and directives -/

/-- An anchor or an alias. -/
def name : Lex String := do
  discard next
  let cs ← span isAnchorChar
  guard !cs.isEmpty
  return .ofList cs

/-- The octet after a percent sign. -/
def octet : Lex Nat := do
  discard next
  let ds := [← next, ← next]
  return ← Text.readHex? ds

/-- The number of octets that make up a character with the given first one. -/
def octetCount? (first : Nat) : Option Nat :=
  if first < 0x80 then some 1
  else if 0xC0 ≤ first ∧ first < 0xE0 then some 2
  else if 0xE0 ≤ first ∧ first < 0xF0 then some 3
  else if 0xF0 ≤ first ∧ first < 0xF8 then some 4
  else none

/-- Further octets of a character, appended to those before. -/
def furtherOctets (code : Nat) : Nat → Lex Nat
  | 0 => return code
  | count + 1 => do
    guard ((← look 0) = some '%')
    let o ← octet
    guard (0x80 ≤ o ∧ o < 0xC0)
    furtherOctets (code * 0x100 + o) count

/-- A character of a tag that is written by its octets. The octets are taken as one number. -/
def octetChar : Lex Char := do
  let first ← octet
  let count ← octetCount? first
  return ← Text.charOfCode? (← furtherOctets first (count - 1))

/-- The characters of a class, some of which may be written by their octets. -/
def tagChars (isPart : Char → Bool) (fuel : Nat) : Lex (List Char) := do
  match fuel with
  | 0 => failure
  | fuel + 1 =>
    match ← look 0 with
    | none => return []
    | some c =>
      if !isPart c then return []
      let c ← if c = '%' then octetChar else next
      return c :: (← tagChars isPart fuel)

/-- The handle of a tag: a mark, a name and perhaps another mark. -/
def tagHandle : Lex (List Char) := do
  guard ((← look 0) = some '!')
  discard next
  let name ← span isNameChar
  if (← look 0) = some '!' then
    discard next
    return '!' :: name ++ ['!']
  else return '!' :: name

/-- A tag. -/
def tag (fuel : Nat) : Lex Token := do
  let t : Token ←
    if (← look 1) = some '<' then do
      skip 2
      let suffix ← tagChars isUriChar fuel
      guard ((← look 0) = some '>')
      discard next
      pure (.tag "" (.ofList suffix))
    else do
      let handle ← tagHandle
      if 2 ≤ handle.length ∧ handle.getLast? = some '!' then
        let suffix ← tagChars isTagChar fuel
        guard !suffix.isEmpty
        pure (.tag (.ofList handle) (.ofList suffix))
      else
        let suffix := handle.drop 1 ++ (← tagChars isTagChar fuel)
        pure (if suffix.isEmpty then .tag "" "!" else .tag "!" (.ofList suffix))
  let after ← look 0
  guard (endsWord after || ((← get).flowLevel != 0 && after.any isFlowMark))
  return t

/-- A number in a version. -/
def versionNumber : Lex Unit := do
  let ds ← span Text.isDigit
  guard (!ds.isEmpty && ds.length ≤ 9)

/-- What a handle of tags stands for. -/
def tagStart (fuel : Nat) : Lex (List Char) := do
  let first ← look 0
  guard (first.any fun c => c == '!' || isTagChar c)
  if first = some '!' then
    discard next
    return '!' :: (← tagChars isUriChar fuel)
  else tagChars isUriChar fuel

/-- A directive with its line. Unknown ones are like one without a handle. -/
def directive (fuel : Nat) : Lex Token := do
  discard next
  let name ← span isNameChar
  guard (!name.isEmpty && endsWord (← look 0))
  let t : Token ← match String.ofList name with
    | "YAML" => do
      discard (span isBlank)
      versionNumber
      guard ((← next) = '.')
      versionNumber
      pure .version
    | "TAG" => do
      discard (span isBlank)
      let handle ← tagHandle
      guard (handle.getLast? = some '!')
      discard (span isBlank)
      let start ← tagStart fuel
      guard (endsWord (← look 0))
      pure (.tagDirective (.ofList handle) (.ofList start))
    | _ => do
      discard (span (!isBreak ·))
      pure (.tagDirective "" "")
  discard (blanks true)
  guard (endsLine (← look 0))
  discard lineBreak
  return t

/-! ### Scalars of several lines -/

/-- What is between two words of a scalar: whether there is a line end, whether the first one
counts, the further ones, and the blanks before it. -/
structure Gap where
  broken : Bool
  first : Bool
  further : List Char
  blanks : List Char

/-- No gap. -/
def Gap.empty : Gap := ⟨false, false, [], []⟩

/-- What stands for a gap: a single line end is a space, further ones stay, and so do blanks within
a line. -/
def Gap.text (g : Gap) : List Char :=
  if !g.broken then g.blanks
  else if g.first && g.further.isEmpty then [' ']
  else g.further

/-- Consumes blanks and line ends. Before a column there must be no tabs at the beginning of a line,
unless there is nothing else in the line and this is excused. -/
def gap (column : Int) (excused : Bool) (g : Gap) (fuel : Nat) : Lex Gap := do
  match fuel with
  | 0 => failure
  | fuel + 1 =>
    match ← look 0 with
    | none => return g
    | some c =>
      if isBlank c then
        if g.broken ∧ c = '\t' ∧ (← get).place.column < column then
          guard excused
          discard (blanks true)
          guard (endsLine (← look 0))
          gap column excused g fuel
        else
          discard next
          gap column excused (if g.broken then g else { g with blanks := g.blanks ++ [c] }) fuel
      else if ← lineBreak then
        let g :=
          if g.broken then { g with further := g.further ++ ['\n'] } else ⟨true, true, [], []⟩
        gap column excused g fuel
      else return g

/-- The character of a number of digits of base sixteen. -/
def codePoint (count : Nat) : Lex Char := do
  let ds := (← get).rest.take count
  guard (ds.length = count)
  skip count
  return ← (Text.readHex? ds).bind Text.charOfCode?

/-- The character that the text after a backslash stands for. -/
def escaped : Lex Char := do
  match ← next with
  | '0' => return '\x00'
  | 'a' => return '\x07'
  | 'b' => return '\x08'
  | 't' | '\t' => return '\t'
  | 'n' => return '\n'
  | 'v' => return '\x0b'
  | 'f' => return '\x0c'
  | 'r' => return '\r'
  | 'e' => return '\x1b'
  | ' ' => return ' '
  | '"' => return '"'
  | '\'' => return '\''
  | '/' => return '/'
  | '\\' => return '\\'
  | 'N' => return '\u0085'
  | '_' => return '\u00a0'
  | 'L' => return '\u2028'
  | 'P' => return '\u2029'
  | 'x' => codePoint 2
  | 'u' => codePoint 4
  | 'U' => codePoint 8
  | _ => failure

/-- A word of a scalar in quotes, and whether it ends in a line end after a backslash. -/
def quotedWord (quote : Char) (fuel : Nat) : Lex (List Char × Bool) := do
  match fuel with
  | 0 => failure
  | fuel + 1 =>
    match ← look 0, ← look 1 with
    | none, _ => return ([], false)
    | some c, after =>
      if isBreak c || isBlank c then return ([], false)
      else if quote = '\'' ∧ c = '\'' ∧ after = some '\'' then
        skip 2
        let (cs, broken) ← quotedWord quote fuel
        return ('\'' :: cs, broken)
      else if c = quote then return ([], false)
      else if quote = '"' ∧ c = '\\' then
        discard next
        if ← lineBreak then return ([], true)
        let c ← escaped
        let (cs, broken) ← quotedWord quote fuel
        return (c :: cs, broken)
      else
        discard next
        let (cs, broken) ← quotedWord quote fuel
        return (c :: cs, broken)

/-- The text of a scalar in quotes up to its closing quote. -/
def quotedText (quote : Char) (fuel : Nat) : Lex (List Char) := do
  match fuel with
  | 0 => failure
  | fuel + 1 =>
    guard !(← marksDocument '-')
    guard !(← marksDocument '.')
    let s ← get
    guard (!s.rest.isEmpty && s.indent ≤ s.place.column)
    let (word, broken) ← quotedWord quote fuel
    if (← look 0) = some quote then
      discard next
      return word
    let g ← gap s.indent false { Gap.empty with broken := broken } fuel
    return word ++ g.text ++ (← quotedText quote fuel)

/-- A scalar in quotes. In its last line only the end of the line can follow, or a mark that goes on
with a map or a list. A key outside of brackets and braces is on one line. -/
def quoted (quote : Char) (fuel : Nat) : Lex (List Char) := do
  let line := (← get).place.line
  discard next
  let text ← quotedText quote fuel
  discard (blanks true)
  let s ← get
  let flow := s.flowLevel ≠ 0
  guard (s.rest.head?.all fun c =>
    isBreak c || (flow && (c == ',' || c == ']' || c == '\x7d')) ||
      (c == ':' && (flow || s.place.line == line)))
  return text

/-- A word of a plain scalar. It ends before a colon that ends a key, and inside of brackets and
braces before their marks. -/
def plainWord (flow : Bool) (fuel : Nat) : Lex (List Char) := do
  match fuel with
  | 0 => failure
  | fuel + 1 =>
    let c? ← look 0
    if endsWord c? then return []
    let c ← c?
    let after ← look 1
    if c = ':' ∧ (endsWord after ∨ (flow ∧ after.any isFlowMark)) then return []
    if flow && isFlowMark c then return []
    discard next
    return c :: (← plainWord flow fuel)

/-- The text of a plain scalar after a gap, and whether it ends after a line end. -/
def plainText (flow : Bool) (column : Int) (g : Gap) (fuel : Nat) : Lex (List Char × Bool) := do
  match fuel with
  | 0 => failure
  | fuel + 1 =>
    let first ← look 0
    if (← marksDocument '-') || (← marksDocument '.') || first = some '#' then
      return ([], g.broken)
    guard !(flow && first = some '-' && (← look 1).any isFlowMark)
    let word ← plainWord flow fuel
    let text := if word.isEmpty then [] else g.text ++ word
    let broken := g.broken && word.isEmpty
    if (← look 0).all fun c => !(isBreak c || isBlank c) then return (text, broken)
    let g ← gap column true { Gap.empty with broken := broken } fuel
    if !flow && (← get).place.column < column then return (text, g.broken)
    let (more, broken) ← plainText flow column g fuel
    return (text ++ more, broken)

/-- Goes back from columns where no block begins. -/
def leaveBareIndents : List Indent → Lex Unit
  | [] => return
  | i :: indents =>
    if i.isBlock then return
    else do
      modify fun s => { s with indent := i.column, indents := indents }
      leaveBareIndents indents

/-- A plain scalar, and whether it ends after a line end. -/
def plain (fuel : Nat) : Lex (List Char × Bool) := do
  leaveBareIndents (← get).indents
  let s ← get
  let flow := s.flowLevel ≠ 0
  guard !(flow && s.place.column < s.indent + 1)
  plainText flow (s.indent + 1) .empty fuel

/-! ### Block scalars -/

/-- What becomes of the line ends at the end of a block scalar. -/
inductive Chomping
  | clip
  | strip
  | keep
  deriving DecidableEq, Repr

/-- The mark of how to treat the line ends at the end. -/
def chomping : Lex Chomping := do
  match ← look 0 with
  | some '+' =>
    discard next
    return .keep
  | some '-' =>
    discard next
    return .strip
  | _ => return .clip

/-- The mark of how much further in than its surroundings a block scalar is; zero if there is
none. -/
def increment : Lex Nat := do
  match ← look 0 with
  | some c =>
    if !Text.isDigit c then return 0
    guard (c ≠ '0')
    discard next
    return Text.digitValue c
  | none => return 0

/-- Consumes blank lines and the indentation after them, up to a column if there is one. The result
has the line ends and the greatest column. -/
def blankLines (column : Option Nat) (most : Nat) (fuel : Nat) : Lex (List Char × Nat) := do
  match fuel with
  | 0 => failure
  | fuel + 1 =>
    let s ← get
    let spaces := (s.rest.takeWhile (· == ' ')).length
    skip (column.elim spaces fun column => min spaces (column - s.place.column))
    let most := max most (← get).place.column
    if ← lineBreak then
      let (breaks, most) ← blankLines column most fuel
      return ('\n' :: breaks, most)
    else return ([], most)

/-- A block scalar that is read in part: its text, whether its last line is complete, whether that
line begins with a blank, and the blank lines after it. -/
structure Block where
  text : List Char
  complete : Bool
  indented : Bool
  blankLines : List Char

/-- Reads the lines of a block scalar. Unless it is literal, a line end between two lines that do
not begin with a blank is a space. -/
def blockLines (literal : Bool) (indent : Nat) (b : Block) (fuel : Nat) : Lex Block := do
  match fuel with
  | 0 => failure
  | fuel + 1 =>
    match ← look 0 with
    | none => return b
    | some c =>
      if (← get).place.column ≠ indent then return b
      if ← marksDocument '.' then return b
      let indented := isBlank c
      let folds := !literal && b.complete && !b.indented && !indented
      let before :=
        if folds then (if b.blankLines.isEmpty then [' '] else [])
        else if b.complete then ['\n'] else []
      let line ← span (!isBreak ·)
      let text := b.text ++ before ++ b.blankLines ++ line
      if ← lineBreak then
        let (breaks, _) ← blankLines (some indent) 0 fuel
        blockLines literal indent ⟨text, true, indented, breaks⟩ fuel
      else return ⟨text, false, indented, []⟩

/-- The text of a block scalar without lines at the end of the text. -/
def emptyBlock (c : Chomping) (lineEnds : Bool) (breaks : List Char) : List Char :=
  if c = .strip ∨ !lineEnds then []
  else if c = .keep ∧ !breaks.isEmpty then breaks
  else ['\n']

/-- A block scalar after its first mark. -/
def block (literal : Bool) (fuel : Nat) : Lex (List Char) := do
  leaveBareIndents (← get).indents
  let digitFirst := (← look 0).any Text.isDigit
  let early ← if digitFirst then increment else pure 0
  let chomping ← chomping
  let late ← if digitFirst || chomping == .clip then pure 0 else increment
  discard (blanks true)
  guard (endsLine (← look 0))
  let lineEnds ← lineBreak
  guard ((← look 0) ≠ some '\t')
  let around := (← get).indent
  let given := if early + late = 0 then none else some ((max around 0).toNat + early + late)
  let (breaks, most) ← blankLines given 0 fuel
  let found := max most (around + 1).toNat
  let indent := given.getD (if 0 < around then max found 1 else found)
  let s ← get
  if s.rest.isEmpty then return emptyBlock chomping lineEnds breaks
  guard !(s.place.column < indent && around < s.place.column)
  let b ← blockLines literal indent ⟨[], false, false, breaks⟩ fuel
  if chomping = .strip then return b.text
  let s ← get
  let last := if s.rest.isEmpty ∧ max indent 1 ≤ s.place.column then ['\n'] else []
  let kept := if chomping = .keep then b.blankLines else []
  return b.text ++ (if b.complete then ['\n'] else []) ++ last ++ kept

end Lex

end TreeMachine.Yaml
