import TreeMachine.Number.Binary

/-!
# Shortest decimals

The shortest decimal of a double is the one with the fewest digits among those that read back as the
same double, and the nearest of them to the exact value. A decimal reads back when it lies in the
interval of reals that round to the double; the ends belong to it when the significand is even.

The search goes through the grids of one, two, … seventeen digits. On a grid it is enough to look at
the two points beside the value: if any point of the grid lies in the interval, one of these does.
All comparisons are between products of natural numbers.
-/

namespace TreeMachine.Number

/-- A decimal `significand * 10 ^ exponent`. -/
structure Decimal where
  significand : Nat
  exponent : Int
  deriving DecidableEq, Repr

/-- Which of two equally near decimals is taken. -/
inductive Tie
  | up
  | even

/-- The number of decimal digits of a positive number; zero has none. -/
def decimalLength (n : Nat) : Nat :=
  if n = 0 then 0 else (Nat.toDigits 10 n).length

/-- The reals that round to a positive double, in units of `2 ^ exponent`: the value, the two ends
of the interval, and whether the ends belong to it. -/
structure Rounding where
  value : Nat
  lower : Nat
  upper : Nat
  closed : Bool
  exponent : Int

/-- The rounding interval of a positive double. Below a power of two the neighbours are only half as
far apart, so that the interval reaches only half as far down. -/
def Binary.rounding (b : Binary) : Rounding :=
  let m := b.significand
  let down := if m = hiddenBit ∧ b.exponent ≠ -1074 then 1 else 2
  { value := 4 * m, lower := 4 * m - down, upper := 4 * m + 2, closed := m % 2 == 0,
    exponent := b.exponent - 2 }

/-- The factors that bring a decimal of exponent `k` and a number of units to one scale: first that
of the decimal's significand, then that of the units. -/
def Rounding.scales (r : Rounding) (k : Int) : Nat × Nat :=
  (Nat.pow 10 k.toNat <<< (-r.exponent).toNat, Nat.pow 10 (-k).toNat <<< r.exponent.toNat)

/-- Whether the decimal `c * 10 ^ k` reads back as the double. -/
def Rounding.admits (r : Rounding) (k : Int) (c : Nat) : Bool :=
  let (a, b) := r.scales k
  if r.closed then r.lower * b ≤ c * a && c * a ≤ r.upper * b
  else r.lower * b < c * a && c * a < r.upper * b

/-- The least `e` such that the value is below `10 ^ e`. Scaling by `10 ^ 330` makes an integer of
at least one digit out of every double. -/
def Rounding.magnitude (r : Rounding) : Int :=
  let (a, b) := r.scales (-330)
  (decimalLength (r.value * b / a) : Int) - 330

/-- The decimal of exponent `k` that reads back and is nearest to the value, if there is one. -/
def Rounding.nearest? (r : Rounding) (tie : Tie) (k : Int) : Option Decimal :=
  let (a, b) := r.scales k
  let c := r.value * b / a
  match r.admits k c, r.admits k (c + 1) with
  | false, false => none
  | true, false => some ⟨c, k⟩
  | false, true => some ⟨c + 1, k⟩
  | true, true =>
    let below := r.value * b - c * a
    let above := (c + 1) * a - r.value * b
    if below < above then some ⟨c, k⟩
    else if above < below then some ⟨c + 1, k⟩
    else match tie with
      | .up => some ⟨c + 1, k⟩
      | .even => some ⟨if c % 2 = 0 then c else c + 1, k⟩

/-- The same number without zeros at the end of its significand. There are at most as many as
`fuel`. -/
def Decimal.stripZeros (fuel : Nat) (d : Decimal) : Decimal :=
  match fuel with
  | 0 => d
  | fuel + 1 =>
    if d.significand ≠ 0 ∧ d.significand % 10 = 0 then
      stripZeros fuel ⟨d.significand / 10, d.exponent + 1⟩
    else d

/-- The shortest decimal that reads back as the positive double `b`. Seventeen digits always
suffice. -/
def Binary.shortest (tie : Tie) (b : Binary) : Decimal :=
  let r := b.rounding
  let e := r.magnitude
  let found := (List.range 17).findSome? fun (n : Nat) => r.nearest? tie (e - (n + 1))
  (found.getD ⟨0, 0⟩).stripZeros 18

end TreeMachine.Number
