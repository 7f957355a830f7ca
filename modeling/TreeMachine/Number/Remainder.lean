import TreeMachine.Number.Binary

/-!
# The remainder of doubles

The remainder of a division of doubles whose quotient is cut off toward zero. It is exact: in units
of the smaller of the two exponents both operands are integers, and so is their remainder, which has
no more bits than either significand.
-/

namespace TreeMachine.Number

/-- The remainder of two finite doubles, the second one not zero; it has the sign of the first. -/
def Binary.remainder (x y : Binary) : Binary :=
  let e := min x.exponent y.exponent
  let m := x.significand <<< (x.exponent - e).toNat
  let n := y.significand <<< (y.exponent - e).toNat
  ⟨x.negative, m % n, e⟩

/-- The remainder of two doubles. It is NaN for an infinite dividend or a zero divisor, and the
dividend itself for an infinite divisor. -/
def remainder (x y : Float) : Float :=
  match Binary.ofFloat? x, Binary.ofFloat? y with
  | some a, some b => if b.significand = 0 then 0.0 / 0.0 else (a.remainder b).toFloat
  | some _, none => if y.isNaN then y else x
  | none, _ => 0.0 / 0.0

end TreeMachine.Number
