import TreeMachine.Number.Nearest
import TreeMachine.Scalar
import TreeMachine.Yaml.Tokens

/-!
# Reading YAML

The values of a text are made from its tokens. A node can have an anchor, and later nodes can repeat
it by its name. Plain scalars are null, truth values, integers or doubles if they look like it;
scalars in quotes and in blocks are texts, whatever they look like.

Nodes are read by functions that call each other, one for each form that a list or a map may have:
with a block of its own, with dashes only, in brackets, in braces, or as a single field in brackets.
A key or a value that is left out is null, so each of these forms has its own tokens that say that
nothing is there (`Parse.nodeUnless`).

A name that is repeated stands for the value of the node with the latest anchor of that name. Its
node may not be complete yet, when it contains itself. Then the value is missing, and a missing
value is no key: the next node of the map is one again (`Parse.addNode`). Values with a tag that
does not go with the text are missing, too.

Directives say what the handles of tags stand for. A text with several documents is refused, and one
with none at all is an empty map (`Parse.document`). Readers take fuel, one unit for each node;
twice the number of tokens and two more is always enough.
-/

namespace TreeMachine.Yaml

/-- A value. A double keeps its text, since not every text that counts as a double denotes one. A
value is missing where a tag does not go with its scalar, and where a node repeats itself. -/
inductive Value
  | missing
  | null
  | scalar (s : Scalar)
  | double (text : String)
  | list (items : List Value)
  | map (fields : List (Value × Value))

/-! ### Scalars -/

/-- Reads an integer of a base, with an optional sign. -/
def readBase? (base : Nat) (cs : List Char) : Option Int64 := do
  let (negative, ds) := Number.splitSign cs
  guard (!ds.isEmpty && ds.all fun d => Text.isHexDigit d && Text.hexDigitValue d < base)
  let n : Int := Text.ofBase base ds
  Word.signed? (if negative then -n else n)

/-- The integer that a plain scalar is. -/
def integer? (cs : List Char) : Option Int64 :=
  let marked := match cs with
    | '0' :: 'x' :: ds => readBase? 16 ds
    | '0' :: 'o' :: ds => readBase? 8 ds
    | '+' :: ds => Text.readInt64? ds
    | _ => none
  marked <|> Text.readInt64? cs

/-- Whether a plain scalar is a double. -/
def isDouble (s : String) : Bool :=
  s ∈ [".inf", ".Inf", ".INF", "+.inf", "+.Inf", "+.INF", "-.inf", "-.Inf", "-.INF", ".nan", "NaN",
    ".NAN"] || (Number.readFloat? s.toList).isSome

/-- The value of a plain scalar without a tag. -/
def Value.ofPlain (s : String) : Value :=
  if s = "~" ∨ s = "null" then .null
  else if s = "true" then .scalar (.bool true)
  else if s = "false" then .scalar (.bool false)
  else
    match integer? s.toList with
    | some n => .scalar (.int n)
    | none => if isDouble s then .double s else .scalar (.text s)

/-- What the tags of this language itself begin with. -/
def coreTag : String :=
  "tag:yaml.org,2002:"

/-- The value of a plain scalar with a tag, whose start stands for its handle. -/
def Value.ofTagged (start suffix s : String) : Value :=
  if start ≠ coreTag then .scalar (.text s)
  else
    match suffix with
    | "bool" =>
      if s = "true" then .scalar (.bool true)
      else if s = "false" then .scalar (.bool false)
      else .missing
    | "int" => (Text.readInt64? s.toList).elim .missing fun n => .scalar (.int n)
    | "float" => if isDouble s then .double s else .missing
    | "null" => if s = "~" ∨ s = "null" then .null else .missing
    | _ => .scalar (.text s)

/-- The value of a scalar. Scalars that are not plain are texts. -/
def Value.ofScalar (plain : Bool) (tag : Option (String × String)) (s : String) : Value :=
  if !plain then .scalar (.text s)
  else
    match tag with
    | some (start, suffix) => .ofTagged start suffix s
    | none => .ofPlain s

/-! ### Nodes -/

/-- The state of a reader: the rest of the tokens, what the handles of tags stand for, the numbers
of the anchors by their names, newest first, and the values of those whose nodes are complete. -/
structure Reader where
  tokens : List Token
  tags : List (String × String)
  anchors : List (String × Nat)
  values : List (Nat × Value)

/-- Reading tokens. -/
abbrev Parse := StateT Reader Option

namespace Parse

/-- The next token, which is not consumed. -/
def peek : Parse (Option Token) :=
  return (← get).tokens.head?

/-- Consumes a token. -/
def skip : Parse Unit :=
  modify fun r => { r with tokens := r.tokens.tail }

/-- Consumes a token if it comes next. -/
def accept (t : Token) : Parse Bool := do
  if (← peek) = some t then
    skip
    return true
  else return false

/-- Whether the next token is one of some tokens. -/
def comes (ts : List Token) : Parse Bool :=
  return (← peek).any fun t => t ∈ ts

/-- The number of a new anchor. -/
def newAnchor (name : String) : Parse Nat := do
  let r ← get
  let number := r.anchors.length
  set { r with anchors := (name, number) :: r.anchors }
  return number

/-- The anchor of a node, if there is one. -/
def anchor : Parse (Option Nat) := do
  match ← peek with
  | some (.anchor name) =>
    skip
    return some (← newAnchor name)
  | _ => return none

/-- What the handle of a tag stands for. One that is a name between two marks must be declared. -/
def tagStart (handle suffix : String) : Parse String := do
  let tags := (← get).tags
  if handle = "!!" then return (tags.lookup "!!").getD coreTag
  else if handle = "" ∧ suffix = "!" then return (tags.lookup "").getD ""
  else
    match tags.lookup handle with
    | some start => return start
    | none =>
      guard !(2 ≤ handle.length && handle.startsWith "!" && handle.endsWith "!")
      return handle

/-- The tag of a node, if there is one, with what its handle stands for. -/
def tag : Parse (Option (String × String)) := do
  match ← peek with
  | some (.tag handle suffix) =>
    skip
    return some (← tagStart handle suffix, suffix)
  | _ => return none

/-- The value that a name repeats. -/
def repeated (name : String) : Parse Value := do
  let r ← get
  let number ← r.anchors.lookup name
  return (r.values.lookup number).getD .missing

/-- Keeps the value of a node with an anchor. -/
def keep (anchor : Option Nat) (v : Value) : Parse Value := do
  if let some number := anchor then
    modify fun r => { r with values := (number, v) :: r.values }
  return v

/-- Puts the next node of a map into it, given a key that still lacks its value, with the fields
last first. A missing value is no key, so the next node is one again. -/
def addNode (fields : List (Value × Value)) (key : Value) (v : Value) :
    List (Value × Value) × Value :=
  match key with
  | .missing => (fields, v)
  | key => ((key, v) :: fields, .missing)

/-- A node that has an anchor or a tag only. -/
def orNothing (anchor : Option Nat) (tag : Option (String × String)) : Parse Value := do
  guard (anchor.isSome || tag.isSome)
  keep anchor (.ofScalar true tag "")

mutual

/-- A node. Blocks can be forbidden, and items without a block of their own can be allowed. -/
def node (block items : Bool) (fuel : Nat) : Parse Value := do
  match fuel with
  | 0 => failure
  | fuel + 1 =>
    if let some (.alias name) ← peek then
      skip
      return ← repeated name
    let early ← anchor
    let tag ← tag
    let late ← if early.isNone then anchor else pure none
    let anchor := early <|> late
    match ← peek with
    | some (.scalar plain text) =>
      skip
      keep anchor (.ofScalar plain tag text)
    | some .flowSequence =>
      skip
      keep anchor (.list (← flowItems true fuel))
    | some .flowMapping =>
      skip
      keep anchor (.map (← flowFields true [] .missing fuel))
    | some .blockEntry =>
      if items then keep anchor (.list (← looseItems fuel)) else orNothing anchor tag
    | some .blockSequence =>
      if block then
        skip
        keep anchor (.list (← blockItems fuel))
      else orNothing anchor tag
    | some .blockMapping =>
      if block then
        skip
        keep anchor (.map (← blockFields [] .missing fuel))
      else orNothing anchor tag
    | _ => orNothing anchor tag

/-- A node, or null if one of some tokens comes next. -/
def nodeUnless (ends : List Token) (block items : Bool) (fuel : Nat) : Parse Value := do
  match fuel with
  | 0 => failure
  | fuel + 1 => if ← comes ends then return .null else node block items fuel

/-- The items of a block up to its end. -/
def blockItems (fuel : Nat) : Parse (List Value) := do
  match fuel with
  | 0 => failure
  | fuel + 1 =>
    if ← accept .blockEnd then return []
    guard (← accept .blockEntry)
    let v ← nodeUnless [.blockEntry, .blockEnd] true false fuel
    return v :: (← blockItems fuel)

/-- Items without a block of their own. -/
def looseItems (fuel : Nat) : Parse (List Value) := do
  match fuel with
  | 0 => failure
  | fuel + 1 =>
    if ← accept .blockEntry then
      let v ← nodeUnless [.blockEntry, .key, .value, .blockEnd] true false fuel
      return v :: (← looseItems fuel)
    else return []

/-- The fields of a block up to its end, after those that are given last first. -/
def blockFields (fields : List (Value × Value)) (key : Value) (fuel : Nat) :
    Parse (List (Value × Value)) := do
  match fuel with
  | 0 => failure
  | fuel + 1 =>
    if ← accept .blockEnd then return fields.reverse
    let k ←
      if ← accept .key then nodeUnless [.key, .value, .blockEnd] true true fuel
      else do
        guard (← comes [.value])
        pure .null
    let (fields, key) := addNode fields key k
    let v ←
      if ← accept .value then nodeUnless [.key, .value, .blockEnd] true true fuel else pure .null
    let (fields, key) := addNode fields key v
    blockFields fields key fuel

/-- The items of a list in brackets up to its end. -/
def flowItems (first : Bool) (fuel : Nat) : Parse (List Value) := do
  match fuel with
  | 0 => failure
  | fuel + 1 =>
    if ← accept .flowSequenceEnd then return []
    if !first then guard (← accept .flowEntry)
    if ← accept .flowSequenceEnd then return []
    if ← accept .key then
      let v ← flowPair fuel
      return v :: (← flowItems false fuel)
    else
      let v ← node false false fuel
      return v :: (← flowItems false fuel)

/-- A map of one field in a list in brackets. -/
def flowPair (fuel : Nat) : Parse Value := do
  match fuel with
  | 0 => failure
  | fuel + 1 =>
    let ends : List Token := [.flowEntry, .flowSequenceEnd]
    let k ←
      if ← comes (.value :: ends) then do
        skip
        pure .null
      else node false false fuel
    let (fields, key) := addNode [] .missing k
    let v ← if ← accept .value then nodeUnless ends false false fuel else pure .null
    return .map (addNode fields key v).1

/-- The fields of a map in braces up to its end, after those that are given last first. -/
def flowFields (first : Bool) (fields : List (Value × Value)) (key : Value) (fuel : Nat) :
    Parse (List (Value × Value)) := do
  match fuel with
  | 0 => failure
  | fuel + 1 =>
    if ← accept .flowMappingEnd then return fields.reverse
    if !first then guard (← accept .flowEntry)
    if ← accept .flowMappingEnd then return fields.reverse
    let ends : List Token := [.flowEntry, .flowMappingEnd]
    let marked ← accept .key
    let paired ← pure (marked || (← comes [.value]))
    let k ←
      if marked then nodeUnless (.value :: ends) false false fuel
      else if paired then pure .null
      else node false false fuel
    let (fields, key) := addNode fields key k
    let v ←
      if paired then
        if ← accept .value then nodeUnless ends false false fuel else pure .null
      else pure .null
    let (fields, key) := addNode fields key v
    flowFields false fields key fuel

end

/-! ### Documents -/

/-- Consumes tokens of a kind. -/
def skipAll (t : Token) : Parse Unit :=
  modify fun r => { r with tokens := r.tokens.dropWhile (· == t) }

/-- The directives before a document, and whether there are any. There is one version at most, and a
handle of the documents before cannot be declared again. The declarations of the last directive are
those that hold. -/
def directives (versioned : Bool) (tags : List (String × String)) (fuel : Nat) : Parse Bool := do
  match fuel with
  | 0 => failure
  | fuel + 1 =>
    match ← peek with
    | some .version =>
      guard !versioned
      skip
      modify fun r => { r with tags := [] }
      discard (directives true tags fuel)
      return true
    | some (.tagDirective handle start) =>
      guard (tags.lookup handle).isNone
      skip
      modify fun r => { r with tags := [(handle, start)] }
      discard (directives versioned tags fuel)
      return true
    | _ => return false

/-- Whether a token is a directive. -/
def isDirective : Token → Bool
  | .version | .tagDirective _ _ => true
  | _ => false

/-- A text with one document, or with none, which is an empty map. -/
def document (fuel : Nat) : Parse Value := do
  skipAll .documentEnd
  if (← peek).isNone then return .map []
  let directed ← directives false [] fuel
  let v ←
    if ← accept .documentStart then
      if (← peek).all fun t => isDirective t || t ∈ [.documentStart, .documentEnd] then pure .null
      else node true false fuel
    else do
      guard !directed
      node true false fuel
  skipAll .documentEnd
  guard (← peek).isNone
  return v

end Parse

/-- The value of a text with one document. -/
def Value.ofText? (s : String) : Option Value := do
  let ts ← Token.ofText? s
  let (v, _) ← (Parse.document (2 * ts.length + 2)).run ⟨ts, [], [], []⟩
  return v

end TreeMachine.Yaml
