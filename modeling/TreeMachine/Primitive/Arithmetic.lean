import TreeMachine.Number.Remainder
import TreeMachine.Primitive.Basic
import TreeMachine.Value

/-!
# Arithmetic and comparison

The primitives on numbers. Two integers give an integer, exactly or not at all; as soon as a double
is involved both operands are taken as doubles. Addition also joins texts, and the comparisons also
order texts. Values that are not both numbers are equal when they are the same.

Operations on integers are done on unbounded integers, and the result is refused when it does not
fit 64 bits (`Primitive.fitting`). So overflow is not something to be detected beforehand: the range
of the result alone decides. Quotients are cut off toward zero and remainders have the sign of the
dividend; a remainder is also refused where the quotient would not fit, although it would be zero.

Operations on doubles never fail. A division by zero gives an infinity or NaN there, and NaN has no
place in the order. Equality compares an integer with a double as doubles, which loses digits of
large integers.

An operation is a record of its name, for messages, and of what it does on both types (`Operation`,
`Comparison`), so that there is a single place where operands are read and brought to one type.
-/

namespace TreeMachine

/-- Two numbers of one type. -/
inductive Numbers
  | ints (x y : Int64)
  | floats (x y : Float)

namespace Primitive

/-- The operands of an operation on numbers, brought to one type. -/
def numbers (op : String) (a b : Value) : Except Complaint Numbers := do
  match ← a.read, ← b.read with
  | .scalar (.int x), .scalar (.int y) => return .ints x y
  | .scalar (.int x), .scalar (.float y) => return .floats (.ofInt x.toInt) y
  | .scalar (.float x), .scalar (.int y) => return .floats x (.ofInt y.toInt)
  | .scalar (.float x), .scalar (.float y) => return .floats x y
  | x, y => throw (.notNumbers op x.kindName y.kindName)

/-- An operation on integers and on doubles. -/
structure Operation where
  name : String
  onInts : Int → Int → Except Complaint Int
  onFloats : Float → Float → Float

/-- An operation on integers that has no result for a divisor of zero. -/
def unlessZero (f : Int → Int → Int) (x y : Int) : Except Complaint Int :=
  if y = 0 then .error .divisionByZero else .ok (f x y)

/-- Sums. -/
def addition : Operation := ⟨Primitive.add.name, fun x y => .ok (x + y), (· + ·)⟩

/-- Differences. -/
def subtraction : Operation := ⟨Primitive.sub.name, fun x y => .ok (x - y), (· - ·)⟩

/-- Products. -/
def multiplication : Operation := ⟨Primitive.mul.name, fun x y => .ok (x * y), (· * ·)⟩

/-- Quotients, cut off toward zero for integers. -/
def division : Operation := ⟨Primitive.div.name, unlessZero Int.tdiv, (· / ·)⟩

/-- Remainders, with the sign of the dividend. A quotient that does not fit leaves no remainder
either. -/
def remaindering : Operation where
  name := Primitive.rem.name
  onInts x y :=
    if x = Word.minSigned ∧ y = -1 then .error (.integerOverflow Primitive.rem.name)
    else unlessZero Int.tmod x y
  onFloats := Number.remainder

/-- The value of an integer, unless it does not fit 64 bits. -/
def fitting (op : String) (n : Int) : Except Complaint Value :=
  match Word.signed? n with
  | some n => .ok (.int n)
  | none => .error (.integerOverflow op)

/-- The result of an operation on two values. -/
def Operation.apply (op : Operation) (a b : Value) : Except Complaint Value := do
  match ← numbers op.name a b with
  | .ints x y => fitting op.name (← op.onInts x.toInt y.toInt)
  | .floats x y => return .float (op.onFloats x y)

/-- Addition of numbers, or the concatenation of texts. -/
def sum (a b : Value) : Except Complaint Value :=
  match a, b with
  | .scalar (.text s), .scalar (.text t) => .ok (.text (s ++ t))
  | _, _ => addition.apply a b

/-- A comparison: its name and what it says of two ordered operands. -/
structure Comparison where
  name : String
  holds : Ordering → Bool

/-- Less than. -/
def less : Comparison := ⟨Primitive.lt.name, Ordering.isLT⟩

/-- At most. -/
def lessOrEqual : Comparison := ⟨Primitive.le.name, Ordering.isLE⟩

/-- Greater than. -/
def greater : Comparison := ⟨Primitive.gt.name, Ordering.isGT⟩

/-- At least. -/
def greaterOrEqual : Comparison := ⟨Primitive.ge.name, Ordering.isGE⟩

/-- The order of two doubles. NaN has none. -/
def orderFloats (x y : Float) : Option Ordering :=
  if x < y then some .lt else if x == y then some .eq else if x > y then some .gt else none

/-- The result of a comparison of two numbers or two texts. Operands without an order compare
false. -/
def Comparison.apply (c : Comparison) (a b : Value) : Except Complaint Bool := do
  match ← a.read, ← b.read with
  | .scalar (.text s), .scalar (.text t) => return c.holds (compare s t)
  | a, b =>
    match ← numbers c.name a b with
    | .ints x y => return c.holds (compare x.toInt y.toInt)
    | .floats x y => return (orderFloats x y).any c.holds

/-- Whether two values are equal. Numbers are compared as numbers, whatever their types. -/
def equal (a b : Value) : Except Complaint Bool := do
  let a ← a.read
  let b ← b.read
  match numbers Primitive.eq.name a b with
  | .ok (.ints x y) => return x == y
  | .ok (.floats x y) => return x == y
  | .error _ => return a == b

end Primitive

end TreeMachine
