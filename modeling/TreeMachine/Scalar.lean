import TreeMachine.Number.Positional
import TreeMachine.Text.Decimal

/-!
# Scalars

The constants of the language: truth values, 64-bit integers, doubles and texts.
-/

namespace TreeMachine

/-- A scalar constant. -/
inductive Scalar
  | bool (b : Bool)
  | int (n : Int64)
  | float (x : Float)
  | text (s : String)
  deriving DecidableEq, Repr

/-- The name of a scalar's type. -/
def Scalar.typeName : Scalar → String
  | .bool _ => "bool"
  | .int _ => "int"
  | .float _ => "float"
  | .text _ => "string"

/-- A scalar as it is printed: texts as they are, doubles in positional notation. -/
def Scalar.display : Scalar → String
  | .bool true => "true"
  | .bool false => "false"
  | .int n => Text.signed n.toInt
  | .float x => Number.positional x
  | .text s => s

end TreeMachine
