/-!
# Doubles as binary fractions

A finite double is an integer times a power of two. The exact algorithms on doubles (their shortest
digits, their remainder) work on this form, in natural numbers.
-/

namespace TreeMachine.Number

/-- A finite double: `significand * 2 ^ exponent`, negated when `negative` is set. Zero keeps its
sign. -/
structure Binary where
  negative : Bool
  significand : Nat
  exponent : Int
  deriving DecidableEq, Repr

/-- The bit of a significand that is not stored, `2 ^ 52`. -/
def hiddenBit : Nat := 0x10000000000000

/-- The fields of a double's bits: a sign, eleven bits of exponent, 52 of fraction. There is no such
form for an infinity or for NaN. -/
def Binary.ofFloat? (x : Float) : Option Binary :=
  let bits := x.toBits.toNat
  let negative := bits >>> 63 == 1
  let exponent : Nat := (bits >>> 52) % 0x800
  let fraction := bits % hiddenBit
  if exponent = 0x7FF then none
  else if exponent = 0 then some ⟨negative, fraction, -1074⟩
  else some ⟨negative, fraction + hiddenBit, (exponent : Int) - 1075⟩

/-- The double of this value, for a significand of at most 53 bits and an exponent of at least
-1074. -/
def Binary.toFloat (b : Binary) : Float :=
  let size := (Float.ofNat b.significand).scaleB b.exponent
  if b.negative then -size else size

end TreeMachine.Number
