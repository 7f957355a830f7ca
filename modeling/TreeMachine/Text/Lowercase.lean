import TreeMachine.Text.Blank
import TreeMachine.Text.CaseTable

/-!
# Lowercase text

The full lowercase mapping of Unicode. Each character is mapped on its own, with two exceptions: a
dotted capital I becomes two characters, and a capital sigma takes its final form at the end of a
word, that is, when a cased character precedes it and none follows, characters that are ignored for
case being passed over on both sides.
-/

namespace TreeMachine.Text

/-- The lowercase form of one character, out of context. -/
def lowerChar (c : Char) : List Char :=
  let code := c.toNat
  if code < 0x80 then [c.toLower]
  else if code = 0x130 then ['i', Char.ofNat 0x307]
  else
    match lowercaseRuns.find? fun r =>
        r.first ≤ code && code ≤ r.last && (code - r.first) % r.step == 0 with
    | some r => [Char.ofNat (r.target + (code - r.first))]
    | none => [c]

/-- Whether the first character that is not ignored for case is cased. -/
def meetsCased (cs : List Char) : Bool :=
  match cs.dropWhile fun c => inRanges caseIgnorableRanges c.toNat with
  | c :: _ => inRanges casedRanges c.toNat
  | [] => false

/-- The lowercase form of the characters that follow `before`, which is given last first. -/
def lowerAfter (before : List Char) : List Char → List Char
  | [] => []
  | c :: cs =>
    let here :=
      if c.toNat = 0x3A3 then
        [Char.ofNat (if meetsCased before && !meetsCased cs then 0x3C2 else 0x3C3)]
      else lowerChar c
    here ++ lowerAfter (c :: before) cs

/-- The lowercase form of a text. -/
def lowercase (s : String) : String :=
  .ofList (lowerAfter [] s.toList)

end TreeMachine.Text
