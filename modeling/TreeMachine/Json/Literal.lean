import TreeMachine.Number.Shortest
import TreeMachine.Text.Decimal

/-!
# Number literals

A number in JSON text is a literal: a sign, digits, an optional fraction and an optional exponent.
Its value is an integer when it is written without fraction and exponent and fits 64 bits, and a
double otherwise.

The double of a literal is computed in floating point. The digits are taken as one integer as long
as it fits 64 bits, later ones only shift the exponent; this integer is rounded to a double, which
is then multiplied or divided by a power of ten. For up to fifteen digits and moderate exponents the
result is the nearest double; in general it may be off by one unit in the last place. A literal
beyond the largest double has no value.
-/

namespace TreeMachine.Json

/-- A number literal. The fraction is empty when there is none. -/
structure Literal where
  negative : Bool
  whole : List Char
  fraction : List Char
  exponent : Option (Bool × List Char)
  deriving DecidableEq, Repr

/-- The value of a number: an integer that fits 64 bits, signed or unsigned, or a double. -/
inductive Number
  | int (n : Int)
  | float (x : Float)

/-! ### Reading and writing a literal -/

/-- The exponent of a literal, which the text after the fraction must be. -/
def Literal.readExponent? : List Char → Option (Option (Bool × List Char))
  | [] => some none
  | c :: cs =>
    if c = 'e' ∨ c = 'E' then
      let (negative, ds) := match cs with
        | '-' :: ds => (true, ds)
        | '+' :: ds => (false, ds)
        | ds => (false, ds)
      if ds.isEmpty || !ds.all Text.isDigit then none else some (some (negative, ds))
    else none

/-- Reads a whole text as a literal. There are digits on both sides of a point and after the mark of
an exponent, and no zero before other digits. -/
def Literal.read? (cs : List Char) : Option Literal := do
  let (negative, cs) := match cs with
    | '-' :: cs => (true, cs)
    | cs => (false, cs)
  let (whole, cs) := cs.span Text.isDigit
  guard (!whole.isEmpty && (whole.head? != some '0' || whole.length == 1))
  match cs with
  | '.' :: cs =>
    let (fraction, cs) := cs.span Text.isDigit
    guard (!fraction.isEmpty)
    return ⟨negative, whole, fraction, ← readExponent? cs⟩
  | cs => return ⟨negative, whole, [], ← readExponent? cs⟩

/-- The text of a literal. -/
def Literal.text (l : Literal) : List Char :=
  let sign := if l.negative then ['-'] else []
  let fraction := if l.fraction.isEmpty then [] else '.' :: l.fraction
  let exponent := match l.exponent with
    | none => []
    | some (negative, ds) => 'e' :: (if negative then '-' :: ds else ds)
  sign ++ l.whole ++ fraction ++ exponent

/-! ### The value of a literal -/

/-- The digits of a literal taken in so far: the integer they make up, and the power of ten that it
is to be multiplied by. -/
structure Literal.Intake where
  significand : Nat
  exponent : Int
  deriving DecidableEq, Repr

/-- The integer with one digit more, if it still fits 64 bits. -/
def Literal.Intake.append? (i : Intake) (d : Char) : Option Nat :=
  let n := i.significand * 10 + Text.digitValue d
  if n ≤ Word.max64 then some n else none

/-- Takes in digits before the point. After the first one that does not fit each further one only
raises the exponent. -/
def Literal.Intake.wholeDigits (i : Intake) : List Char → Intake
  | [] => i
  | d :: ds =>
    match i.append? d with
    | some n => wholeDigits { i with significand := n } ds
    | none => { i with exponent := i.exponent + (ds.length + 1) }

/-- Takes in digits after the point. The first one that does not fit and all after it are
dropped. -/
def Literal.Intake.fractionDigits (i : Intake) : List Char → Intake
  | [] => i
  | d :: ds =>
    match i.append? d with
    | some n => fractionDigits ⟨n, i.exponent - 1⟩ ds
    | none => i

/-- The exponent as a number. -/
def Literal.exponentValue (l : Literal) : Int :=
  match l.exponent with
  | none => 0
  | some (negative, ds) => if negative then -(Text.ofDigits ds : Int) else Text.ofDigits ds

/-- The power of ten nearest to `10 ^ n` among the doubles. -/
def powerOfTen (n : Nat) : Float :=
  Float.ofScientific 1 false n

/-- Divides by `10 ^ n`, in strides of 308 at most. A double from a 64-bit integer is zero after
three strides. -/
def shrink (strides : Nat) (x : Float) (n : Nat) : Float :=
  match strides with
  | 0 => x
  | strides + 1 =>
    if n ≤ 308 then x / powerOfTen n else shrink strides (x / powerOfTen 308) (n - 308)

/-- The double `significand * 10 ^ exponent`, unless it is beyond the largest one. -/
def scaled? (significand : Nat) (exponent : Int) : Option Float :=
  let x := Float.ofNat significand
  if exponent < 0 then some (shrink 4 x exponent.natAbs)
  else if significand = 0 then some 0
  else if 308 < exponent then none
  else
    let y := x * powerOfTen exponent.toNat
    if y.isInf then none else some y

/-- The double of a literal. -/
def Literal.float? (l : Literal) : Option Float := do
  let i := (Intake.wholeDigits ⟨0, 0⟩ l.whole).fractionDigits l.fraction
  let x ← scaled? i.significand (i.exponent + l.exponentValue)
  return if l.negative then -x else x

/-- The value of a literal. Minus zero is a double. -/
def Literal.number? (l : Literal) : Option Number :=
  let n := Text.ofDigits l.whole
  if l.fraction.isEmpty && l.exponent.isNone then
    if !l.negative && n ≤ Word.max64 then some (.int n)
    else if l.negative && 0 < n && Word.minSigned ≤ -n then some (.int (-n))
    else l.float?.map .float
  else l.float?.map .float

/-! ### The literal of a value -/

/-- The literal of an integer. -/
def Literal.ofInt (n : Int) : Literal :=
  ⟨n < 0, Text.digits n.natAbs, [], none⟩

/-- The literal of a positive decimal: positional, with at least one digit on either side of the
point, from `1e-5` up to sixteen digits before the point, and with an exponent beyond. -/
def Literal.ofDecimal (negative : Bool) (d : Number.Decimal) : Literal :=
  let ds := Text.digits d.significand
  let point := (ds.length : Int) + d.exponent
  if 0 ≤ d.exponent ∧ point ≤ 16 then
    ⟨negative, ds ++ List.replicate d.exponent.toNat '0', ['0'], none⟩
  else if 0 < point ∧ point ≤ 16 then
    ⟨negative, ds.take point.toNat, ds.drop point.toNat, none⟩
  else if -5 < point ∧ point ≤ 0 then
    ⟨negative, ['0'], List.replicate (-point).toNat '0' ++ ds, none⟩
  else
    ⟨negative, ds.take 1, ds.drop 1, some (point < 1, Text.digits (point - 1).natAbs)⟩

/-- The literal of a double: its shortest decimal, of two equally near ones the even one. An
infinity and NaN have none. -/
def Literal.ofFloat? (x : Float) : Option Literal :=
  (Number.Binary.ofFloat? x).map fun b =>
    if b.significand = 0 then ⟨b.negative, ['0'], ['0'], none⟩
    else ofDecimal b.negative (b.shortest .even)

end TreeMachine.Json
