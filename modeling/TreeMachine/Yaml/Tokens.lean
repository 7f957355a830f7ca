import TreeMachine.Yaml.Scan

/-!
# The tokens of YAML

Blocks have no marks of their own in a text: where a block begins and ends follows from columns, and
the scanner puts tokens there. Whether a scalar is a key shows only at the colon after it; so the
scanner remembers the tokens that are possible keys, and puts the token for a key before one of them
when it comes upon the colon. In the same way a map without braces in a list in brackets shows only
at its first colon.

A possible key is given up when its line has ended or 1024 characters have gone by. One that stands
where only a key can stand is required, and to give it up is an error. Inside of brackets and braces
neither holds, and there is a possible key for each level of them, of which the innermost one
counts.

The columns to go back to are of two kinds. Most of them are those of blocks, which end when the
text is back at the column. After a key or a dash, what belongs to it must be one column further in
even if it is no block, and such a column ends without a token.

A text is scanned to its end before a value is made from it (`Token.ofText?`), with fuel of twice
its length and something to spare for the end. What is wrong about the order of tokens is not
noticed here but by the reader of the values.
-/

namespace TreeMachine.Yaml.Lex

/-! ### Tokens -/

/-- Adds a token. -/
def emit (t : Token) : Lex Unit :=
  modify fun s => { s with tokens := s.tokens.push t, property := none }

/-- Adds a token for an anchor or a tag that begins at a column. -/
def emitProperty (column : Nat) (t : Token) : Lex Unit :=
  modify fun s => { s with tokens := s.tokens.push t, property := some column }

/-- Puts a token before the one at a position. -/
def emitAt (position : Nat) (t : Token) : Lex Unit :=
  modify fun s =>
    { s with tokens := s.tokens.extract 0 position ++ #[t] ++ s.tokens.extract position }

/-- Sets whether there can be a key now. -/
def allowKey (allowed : Bool) : Lex Unit :=
  modify fun s => { s with keyAllowed := allowed }

/-! ### Blocks -/

/-- Whether a block begins at the current column. -/
def inBlock (s : Scanner) : Bool :=
  s.indents.head?.any (·.isBlock)

/-- Goes back to columns that are not further in than a given one, which ends blocks that are. -/
def endBlocks (column : Int) : List Indent → Lex Unit
  | [] => return
  | i :: indents => do
    if column < (← get).indent then
      modify fun s => { s with indent := i.column, indents := indents }
      if i.isBlock then emit .blockEnd
      endBlocks column indents

/-- Ends the blocks that are further in than a column, outside of brackets and braces. -/
def unindent (column : Int) : Lex Unit := do
  let s ← get
  if s.flowLevel = 0 then endBlocks column s.indents

/-- Begins a block at a column that is further in than the current one. -/
def beginBlock (column : Nat) (position : Nat) (t : Token) : Lex Unit := do
  if (← get).flowLevel = 0 then
    let s ← get
    match s.indents with
    | i :: indents =>
      if s.indent ≤ column ∧ !i.isBlock then
        set { s with indent := i.column, indents := indents }
    | [] => pure ()
    let s ← get
    if s.indent < column then
      set { s with indents := ⟨s.indent, true⟩ :: s.indents, indent := column }
      emitAt position t

/-- Goes one column further in, where what belongs to a key or a dash can begin. -/
def bareIndent : Lex Unit := do
  let s ← get
  if s.flowLevel = 0 ∧ inBlock s then
    set { s with indents := ⟨s.indent, false⟩ :: s.indents, indent := s.indent + 1 }

/-! ### Possible keys -/

/-- Gives up the possible key of the innermost level. -/
def dropKey : Lex Unit := do
  let s ← get
  match s.keys with
  | some k :: keys =>
    guard !k.required
    set { s with keys := none :: keys }
  | _ => return

/-- Remembers the next token as a possible key, if there can be one. -/
def saveKey : Lex Unit := do
  if (← get).keyAllowed then
    dropKey
    let s ← get
    let required := s.flowLevel = 0 ∧ s.indent = s.place.column ∧ inBlock s
    set { s with keys := some ⟨s.tokens.size, s.place, required⟩ :: s.keys.tail }

/-- Gives up the possible keys that are on another line, or too far away. Inside of brackets and
braces a key can have several lines. -/
def dropStaleKeys : Lex Unit := do
  let s ← get
  if s.flowLevel = 0 then
    let isStale (k : PossibleKey) : Bool :=
      k.place.line < s.place.line || k.place.index + 1024 < s.place.index
    guard !(s.keys.any fun k? => k?.any fun k => isStale k && k.required)
    let keys : List (Option PossibleKey) := s.keys.map (Option.filter fun k => !isStale k)
    set { s with keys := keys }

/-! ### Between tokens -/

/-- Consumes the end of a line, if it comes next. Outside of brackets and braces there can be a key
after it. -/
def newLine : Lex Bool := do
  let found ← lineBreak
  if found && (← get).flowLevel == 0 then allowKey true
  return found

/-- Consumes blanks, line ends and comments. In a block a tab in the indentation must have nothing
after it in its line. -/
def filler (fuel : Nat) : Lex Unit := do
  match fuel with
  | 0 => failure
  | fuel + 1 =>
    let s ← get
    match s.rest.head? with
    | none => return
    | some c =>
      if c = '\t' ∧ !s.indents.isEmpty ∧ s.leading ∧ s.place.column < s.indent then
        discard (blanks true)
        guard (endsLine (← look 0))
        filler fuel
      else if isBlank c then
        discard next
        filler fuel
      else if c = '#' then
        discard (span (!isBreak ·))
        filler fuel
      else if ← newLine then filler fuel

/-- Consumes spaces, line ends and comments, and tells whether there were any. -/
def separation (fuel : Nat) : Lex Bool := do
  match fuel with
  | 0 => failure
  | fuel + 1 =>
    match ← look 0 with
    | some ' ' =>
      discard next
      discard (separation fuel)
      return true
    | some '#' =>
      discard (span (!isBreak ·))
      separation fuel
    | _ =>
      if ← newLine then
        discard (separation fuel)
        return true
      else return false

/-! ### Marks -/

/-- The mark that begins or ends a document. -/
def documentMark (t : Token) : Lex Unit := do
  unindent (-1)
  dropKey
  allowKey false
  skip 3
  emit t

/-- Ends the map without braces that is open in a list in brackets. -/
def endBareMap : Lex Unit := do
  let s ← get
  if s.bareMaps.head? = some true then
    set { s with mapBegun := false, bareMaps := false :: s.bareMaps.tail }
    emit .flowMappingEnd

/-- An opening bracket or brace. There are at most 255 levels of them. -/
def openFlow (map : Bool) : Lex Unit := do
  saveKey
  bareIndent
  let s ← get
  guard (s.flowLevel < 255)
  let bareMaps := if map then s.bareMaps else false :: s.bareMaps
  set { s with
    keys := none :: s.keys, flowLevel := s.flowLevel + 1, keyAllowed := true,
    mapBegun := map || s.mapBegun, bareMaps := bareMaps }
  skip 1
  discard (blanks true)
  emit (if map then .flowMapping else .flowSequence)

/-- A closing bracket or brace. The colon of a value can follow directly. -/
def closeFlow (map : Bool) : Lex Unit := do
  dropKey
  let s ← get
  if s.flowLevel ≠ 0 then set { s with keys := s.keys.tail, flowLevel := s.flowLevel - 1 }
  allowKey false
  if !map then
    endBareMap
    modify fun s => { s with bareMaps := s.bareMaps.tail }
  skip 1
  discard (blanks true)
  modify fun s => if s.flowLevel = 0 then s else { s with adjacent := s.place.index }
  emit (if map then .flowMappingEnd else .flowSequenceEnd)

/-- A comma between the parts of a flow. -/
def flowEntry : Lex Unit := do
  dropKey
  allowKey true
  endBareMap
  skip 1
  discard (blanks true)
  emit .flowEntry

/-- The dash before an item of a block. -/
def blockEntry : Lex Unit := do
  let s ← get
  guard (s.flowLevel = 0 ∧ s.keyAllowed)
  guard !(s.property = some 0 ∧ s.place.column = 0 ∧ -1 < s.indent)
  skip 1
  beginBlock s.place.column s.tokens.size .blockSequence
  let blanks ← blanks true
  let first ← look 0
  guard !('\t' ∈ blanks ∧ first = some '-' ∧ endsWord (← look 1))
  if first.any fun c => isBreak c || isFlowMark c then bareIndent
  dropKey
  allowKey true
  emit .blockEntry

/-- The question mark before a key. -/
def explicitKey (fuel : Nat) : Lex Unit := do
  let s ← get
  if s.flowLevel = 0 then
    guard s.keyAllowed
    beginBlock s.place.column s.tokens.size .blockMapping
  else set { s with mapBegun := true }
  dropKey
  allowKey (s.flowLevel = 0)
  skip 1
  guard (← separation fuel)
  guard ((← look 0) ≠ some '\t')
  emit .key

/-- The colon before a value. -/
def value : Lex Unit := do
  let s ← get
  let bare := !s.bareMaps.isEmpty && !s.mapBegun
  if bare then set { s with bareMaps := true :: s.bareMaps.tail }
  skip 1
  if (← look 0) = some '\t' then
    let blanks ← blanks true
    let first ← look 0
    guard !(' ' ∉ blanks ∧ first.any isNameChar)
  match s.keys with
  | some k :: keys =>
    emitAt k.position .key
    if bare then
      guard !(k.place.line < s.place.line)
      emitAt k.position .flowMapping
    beginBlock k.place.column k.position .blockMapping
    bareIndent
    modify fun s => { s with keys := none :: keys, keyAllowed := false }
  | _ =>
    if bare then emit .flowMapping
    if s.flowLevel = 0 then
      guard s.keyAllowed
      beginBlock s.place.column (← get).tokens.size .blockMapping
    bareIndent
    allowKey (s.flowLevel = 0)
  emit .value

/-! ### Scalars and their properties -/

/-- An anchor or a tag. -/
def property (read : Lex Token) : Lex Unit := do
  saveKey
  allowKey false
  let column := (← get).place.column
  emitProperty column (← read)

/-- The name of an anchored node. -/
def aliasOf : Lex Unit := do
  saveKey
  allowKey false
  emit (.alias (← name))

/-- A scalar in quotes. The colon of a value can follow directly. -/
def quotedScalar (quote : Char) (fuel : Nat) : Lex Unit := do
  saveKey
  allowKey false
  let text ← quoted quote fuel
  filler fuel
  modify fun s => { s with adjacent := s.place.index }
  emit (.scalar false (.ofList text))

/-- A plain scalar. -/
def plainScalar (fuel : Nat) : Lex Unit := do
  saveKey
  allowKey false
  let (text, broken) ← plain fuel
  if broken then allowKey true
  emit (.scalar true (.ofList text))

/-- A block scalar. -/
def blockScalar (literal : Bool) (fuel : Nat) : Lex Unit := do
  saveKey
  allowKey true
  skip 1
  emit (.scalar false (.ofList (← block literal fuel)))

/-! ### All tokens -/

/-- A token that begins with a character. -/
def tokenFrom (c : Char) (fuel : Nat) : Lex Unit := do
  let s ← get
  let after ← look 1
  let flow := s.flowLevel ≠ 0
  match c with
  | '[' => openFlow false
  | '\x7b' => openFlow true
  | ']' => closeFlow false
  | '\x7d' => closeFlow true
  | ',' => flowEntry
  | '*' => aliasOf
  | '&' => property (return .anchor (← name))
  | '!' => property (tag fuel)
  | '\'' | '"' => quotedScalar c fuel
  | '%' | '@' | '\x60' => failure
  | _ =>
    if c = '-' ∧ endsWord after then blockEntry
    else if c = '?' ∧ endsWord after then explicitKey fuel
    else if c = ':' ∧ endsWord after then value
    else if c = ':' ∧ flow ∧ (after.any isFlowMark ∨ s.place.index = s.adjacent) then
      guard (s.place.index = s.adjacent ∨ (after ≠ some '[' ∧ after ≠ some '\x7b'))
      value
    else if (c = '|' ∨ c = '>') ∧ !flow then blockScalar (c = '|') fuel
    else plainScalar fuel

/-- Reads the next token, and tells whether the end of the text is not reached yet. -/
def token (fuel : Nat) : Lex Bool := do
  filler fuel
  dropStaleKeys
  unindent (← get).place.column
  match ← look 0 with
  | none =>
    guard !((← get).keys.any fun k? => k?.any (·.required))
    unindent (-1)
    dropKey
    return false
  | some c =>
    let column := (← get).place.column
    if c = '%' ∧ column = 0 then
      unindent (-1)
      dropKey
      allowKey false
      emit (← directive fuel)
    else if ← marksDocument '-' then documentMark .documentStart
    else if ← marksDocument '.' then
      documentMark .documentEnd
      discard (blanks true)
      guard (endsLine (← look 0))
    else
      guard ((← get).indent ≤ column)
      tokenFrom c fuel
    return true

/-- Reads all tokens. -/
def tokens (fuel : Nat) : Lex Unit := do
  match fuel with
  | 0 => failure
  | fuel + 1 => if ← token fuel then tokens fuel

end Lex

/-- The tokens of a text. A null character ends the text. -/
def Token.ofText? (s : String) : Option (List Token) :=
  let cs := s.toList.takeWhile (· != '\x00')
  let start : Scanner :=
    ⟨cs, ⟨0, 1, 0⟩, true, #[], none, [none], true, -1, [], 0, false, [], 0⟩
  ((Lex.tokens (2 * cs.length + 4)).run start).map fun r => r.2.tokens.toList

end TreeMachine.Yaml
