import TreeMachine.Fault
import TreeMachine.Scalar

/-!
# Values

What variables, operands and the fields of objects hold. A variable can also be empty, never having
been written, or uninitialized, declared but not assigned; reading either one is a complaint.

There are three ways to stand for a function. A function value is one that the program has already
picked, by its id. A selector is a name, which is looked up each time that it is called and may also
be a message to a collection. A closure stands for an expression; it can be made up in a snapshot
and is shown in messages, but no expression has one for its value, and calling it is a complaint.

Objects are not values. A value refers to an object by a handle, which names an entry of the heap
together with the generation that the entry had; copying a value copies the handle. Whether the
object is still there is not a question for the value.

`Value.read`, `Value.asBool` and `Value.asInt` say what a value has to be where it is used, and what
is complained about otherwise. Values can be compared for equality, and so can whole contexts later
on.
-/

namespace TreeMachine

/-- A reference to an object of the heap: the entry it lives in and the generation of that entry for
which the reference was made. -/
structure Handle where
  index : Nat
  generation : UInt32
  deriving DecidableEq, Repr

/-- A handle as it is named in messages. -/
def Handle.text (h : Handle) : String :=
  "#" ++ Text.natural h.index ++ "." ++ Text.natural h.generation.toNat

/-- The content of a variable, an operand or a field. A selector is a function known by its name
only, which is looked up when it is called. -/
inductive Value
  | empty
  | uninitialized
  | object (h : Handle)
  | scalar (s : Scalar)
  | function (id : FnId)
  | selector (name : String)
  | closure (id : ExprId)
  deriving DecidableEq, Repr

namespace Value

/-- A truth value. -/
def bool (b : Bool) : Value := .scalar (.bool b)

/-- An integer. -/
def int (n : Int64) : Value := .scalar (.int n)

/-- A double. -/
def float (x : Float) : Value := .scalar (.float x)

/-- A text. -/
def text (s : String) : Value := .scalar (.text s)

/-- The kind of a value, as it is named in messages. -/
def kindName : Value → String
  | .empty => "empty"
  | .uninitialized => "uninitialized"
  | .object _ => "object"
  | .scalar s => s.typeName
  | .function _ => "function"
  | .selector _ => "selector"
  | .closure _ => "closure"

/-- The value itself, unless there is nothing to read. -/
def read : Value → Except Complaint Value
  | .empty => .error .emptyVariable
  | .uninitialized => .error .uninitializedVariable
  | v => .ok v

/-- The truth value that a condition must be. -/
def asBool (v : Value) : Except Complaint Bool := do
  match ← v.read with
  | .scalar (.bool b) => return b
  | v => throw (.notBoolean v.kindName)

/-- The integer that a bound or the state of a loop must be. -/
def asInt (v : Value) : Except Complaint Int64 := do
  match ← v.read with
  | .scalar (.int n) => return n
  | v => throw (.notInteger v.kindName)

/-- The handle of an object. -/
def asObject? : Value → Option Handle
  | .object h => some h
  | _ => none

/-- A value as it is printed inside an object, or when it is no object. -/
def display : Value → String
  | .empty => "<empty>"
  | .uninitialized => "<uninitialized>"
  | .object h => "<object " ++ h.text ++ ">"
  | .scalar s => s.display
  | .function id => "<" ++ id.text ++ ">"
  | .selector name => "<selector " ++ name ++ ">"
  | .closure id => "<closure " ++ id.text ++ ">"

end Value

end TreeMachine
