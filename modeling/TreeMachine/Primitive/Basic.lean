/-!
# Primitives

The functions that every program sees without defining them. They are found by name like any other
function, but run without an activation.
-/

namespace TreeMachine

/-- A predefined function. -/
inductive Primitive
  | add
  | sub
  | mul
  | div
  | rem
  | lt
  | le
  | gt
  | ge
  | eq
  | ne
  | not
  | print
  | range
  deriving DecidableEq, Repr

/-- All primitives, in the order in which they are declared. -/
def Primitive.all : List Primitive :=
  [.add, .sub, .mul, .div, .rem, .lt, .le, .gt, .ge, .eq, .ne, .not, .print, .range]

/-- The name that a primitive is called by. -/
def Primitive.name : Primitive → String
  | .add => "+"
  | .sub => "-"
  | .mul => "*"
  | .div => "/"
  | .rem => "%"
  | .lt => "<"
  | .le => "<="
  | .gt => ">"
  | .ge => ">="
  | .eq => "=="
  | .ne => "!="
  | .not => "!"
  | .print => "print"
  | .range => "range"

/-- The number of arguments of a primitive. -/
def Primitive.arity : Primitive → Nat
  | .not | .print => 1
  | _ => 2

end TreeMachine
