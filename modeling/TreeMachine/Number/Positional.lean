import TreeMachine.Number.Shortest

/-!
# Doubles in positional notation

The text of a double that a program prints: its shortest decimal, written without an exponent
however large or small it is, and without a point when it is an integer. Of two decimals that are
equally near the greater is taken. The sign of zero is kept.
-/

namespace TreeMachine.Number

/-- The digits with the point moved to where the exponent puts it. -/
def Decimal.positional (d : Decimal) : String :=
  let ds := Nat.toDigits 10 d.significand
  if 0 ≤ d.exponent then .ofList (ds ++ List.replicate d.exponent.toNat '0')
  else
    let shift := (-d.exponent).toNat
    if shift < ds.length then
      .ofList (ds.take (ds.length - shift) ++ '.' :: ds.drop (ds.length - shift))
    else .ofList ('0' :: '.' :: List.replicate (shift - ds.length) '0' ++ ds)

/-- The text of a double. -/
def positional (x : Float) : String :=
  match Binary.ofFloat? x with
  | none => if x.isNaN then "NaN" else if x < 0 then "-inf" else "inf"
  | some b =>
    let size := if b.significand = 0 then "0" else (b.shortest .up).positional
    if b.negative then "-" ++ size else size

end TreeMachine.Number
