import TreeMachine.Number.Nearest
import TreeMachine.Toml.DateTime

/-!
# TOML literals

Truth values, numbers, dates and times are runs of letters, digits and a few marks. Such a run is
read as a whole, and then it is tried in turn whether it is a truth value, a date or time, an
integer or a double (`literal?`).

Digits may be grouped with underscores, each of which must stand between two digits (`ungroup?`).
This is checked apart from what the digits mean, and once for every base. Integers have 64 bits with
a sign; those of base two, eight and sixteen have none. An integer beyond them is not read as a
double instead.

A double has a point or an exponent, with digits on both sides of the point. Infinity and what is no
number have names. A positive double beyond the largest one is refused while a negative one is
infinite, as such documents are in fact read.
-/

namespace TreeMachine.Toml

/-- Whether a character can be part of a literal. -/
def isLiteralChar (c : Char) : Bool :=
  c.isAlphanum || c == '+' || c == '-' || c == '_' || c == '.' || c == ':'

/-! ### Numbers -/

/-- A run of digits without its underscores, each of which must stand between two digits. -/
def ungroup? (isDigit : Char → Bool) : List Char → Option (List Char)
  | [] => none
  | [c] => if isDigit c then some [c] else none
  | c :: '_' :: cs => if isDigit c then (ungroup? isDigit cs).map (c :: ·) else none
  | c :: cs => if isDigit c then (ungroup? isDigit cs).map (c :: ·) else none

/-- The digits of a decimal integer, which do not begin with a zero unless it is the only one. -/
def wholeDigits? (cs : List Char) : Option (List Char) :=
  (ungroup? Text.isDigit cs).filter fun ds => ds.head? != some '0' || ds.length == 1

/-- An integer of 64 bits. -/
def integer? (n : Int) : Option Scalar :=
  (Word.signed? n).map .int

/-- Reads an integer, of base two, eight or sixteen when it is marked so. -/
def readInteger? (cs : List Char) : Option Scalar :=
  match cs with
  | '0' :: 'x' :: ds => (ungroup? Text.isHexDigit ds).bind fun ds => integer? (Text.ofBase 16 ds)
  | '0' :: 'o' :: ds =>
    (ungroup? (fun c => '0' ≤ c && c ≤ '7') ds).bind fun ds => integer? (Text.ofBase 8 ds)
  | '0' :: 'b' :: ds =>
    (ungroup? (fun c => c == '0' || c == '1') ds).bind fun ds => integer? (Text.ofBase 2 ds)
  | cs =>
    let (negative, ds) := Number.splitSign cs
    (wholeDigits? ds).bind fun ds =>
      let n : Int := Text.ofDigits ds
      integer? (if negative then -n else n)

/-- The exponent of a double. -/
def exponent? : Option (List Char) → Option Int
  | none => some 0
  | some cs =>
    let (negative, ds) := Number.splitSign cs
    (ungroup? Text.isDigit ds).map fun ds =>
      let n : Int := Text.ofDigits ds
      if negative then -n else n

/-- Reads a double, which has a point or an exponent. There are digits on both sides of a point. A
positive one beyond the largest double is refused. -/
def readFloat? (cs : List Char) : Option Scalar :=
  let (negative, size) := Number.splitSign cs
  let sign (x : Float) : Scalar := .float (if negative then -x else x)
  match String.ofList size with
  | "inf" => some (sign Number.infinity)
  | "nan" => some (sign Number.notANumber)
  | _ => do
    let (mantissa, exponent) := splitAtFirst (fun c => c == 'e' || c == 'E') size
    let (whole, fraction) := splitAtFirst (· == '.') mantissa
    guard (exponent.isSome || fraction.isSome)
    let whole ← wholeDigits? whole
    let fraction ← match fraction with
      | some ds => ungroup? Text.isDigit ds
      | none => some []
    let x := Number.ofNumeral whole fraction (← exponent? exponent)
    if x.isInf && !negative then none else some (sign x)

/-! ### All literals -/

/-- The value of a literal. -/
def literal? (cs : List Char) : Option Value :=
  if cs = "true".toList then some (.scalar (.bool true))
  else if cs = "false".toList then some (.scalar (.bool false))
  else if isDateTime .literal cs then some (.dateTime (.ofList cs))
  else (readInteger? cs <|> readFloat? cs).map .scalar

end TreeMachine.Toml
