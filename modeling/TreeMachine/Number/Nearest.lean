import TreeMachine.Text.Decimal

/-!
# The double nearest to a decimal

Reading a decimal numeral as a double with correct rounding.
-/

namespace TreeMachine.Number

/-- Positive infinity. -/
def infinity : Float := 1 / 0

/-- Not a number. -/
def notANumber : Float := 0 / 0

/-- The double nearest to `significand * 10 ^ exponent`. A decimal that is far beyond the largest
double, or far below the smallest positive one, is not computed with. -/
def ofDecimal (significand : Nat) (exponent : Int) : Float :=
  let point := exponent + (Text.digits significand).length
  if significand = 0 ∨ point < -330 then 0
  else if 310 < point then infinity
  else .ofScientific significand (exponent < 0) exponent.natAbs

/-- The double of a numeral given by the digits before and after its point and by its exponent. -/
def ofNumeral (whole fraction : List Char) (exponent : Int) : Float :=
  ofDecimal (Text.ofDigits (whole ++ fraction)) (exponent - fraction.length)

/-- Splits off a sign. -/
def splitSign (cs : List Char) : Bool × List Char :=
  match cs with
  | '-' :: cs => (true, cs)
  | '+' :: cs => (false, cs)
  | cs => (false, cs)

/-- The size of a double: a name of infinity or NaN in upper or lower case, or digits on at least
one side of a point that may be missing, with an exponent that may be missing. -/
def readSize? (cs : List Char) : Option Float :=
  match String.ofList (cs.map Char.toLower) with
  | "inf" | "infinity" => some infinity
  | "nan" => some notANumber
  | _ =>
    let (whole, rest) := cs.span Text.isDigit
    let (fraction, rest) := match rest with
      | '.' :: rest => rest.span Text.isDigit
      | rest => ([], rest)
    if whole.isEmpty && fraction.isEmpty then none
    else
      match rest with
      | [] => some (ofNumeral whole fraction 0)
      | c :: rest =>
        if c = 'e' ∨ c = 'E' then
          let (negative, ds) := splitSign rest
          (Text.readNat? ds).map fun n =>
            ofNumeral whole fraction (if negative then -n else n)
        else none

/-- Reads a double. -/
def readFloat? (cs : List Char) : Option Float :=
  let (negative, size) := splitSign cs
  (readSize? size).map fun x => if negative then -x else x

end TreeMachine.Number
