import TreeMachine.Iteration
import TreeMachine.Primitive.Arithmetic
import TreeMachine.Sink

/-!
# Applying primitives

The effect of a primitive on the values that it is called with, on the heap and on the sink. Only
`range` allocates and only `print` writes.

A call leaves behind a heap, a sink and a result, also when it fails (`PrimitiveResult`): what was
written before an error stays written. The error is a complaint, without the place in the program,
which is added by the step that makes the call.

Most primitives compute a value from two others, and differ only in what is done with integers and
doubles. They are one definition, over what the operators are elsewhere (`Primitive.compute`). The
number of arguments is checked before any of them is looked at, and arguments are looked at from
left to right.

What is printed of an object are its type and its fields, objects among the fields only by their
handles, so that an object can be printed that refers to itself (`Heap.render`).
-/

namespace TreeMachine

/-- A value as it is printed. Of an object the fields are shown, but not the fields of objects in
them; an object that is gone is shown by its handle. -/
def Heap.render (heap : Heap) (v : Value) : String :=
  match v with
  | .object h =>
    match heap.get? h with
    | some o => o.typeName ++ "(" ++ ", ".intercalate (o.fields.map Value.display) ++ ")"
    | none => v.display
  | v => v.display

/-- What a call of a primitive leaves behind. -/
structure PrimitiveResult where
  heap : Heap
  sink : Sink
  result : Except Complaint Value

namespace Primitive

/-- Writes a value and a newline. -/
def printValue (v : Value) (heap : Heap) (sink : Sink) : PrimitiveResult :=
  match v.read with
  | .error e => ⟨heap, sink, .error e⟩
  | .ok v =>
    match sink.write .program (heap.render v ++ "\n") with
    | (sink, .ok ()) => ⟨heap, sink, .ok .empty⟩
    | (sink, .error e) => ⟨heap, sink, .error (.output e.message)⟩

/-- Allocates a range of integers. -/
def makeRange (lo hi : Value) (heap : Heap) (sink : Sink) : PrimitiveResult :=
  match (do return (← lo.asInt, ← hi.asInt) : Except Complaint (Int64 × Int64)) with
  | .error e => ⟨heap, sink, .error e⟩
  | .ok (lo, hi) =>
    let (heap, h) := heap.alloc (Iterable.rangeObject lo hi)
    ⟨heap, sink, .ok (.object h)⟩

/-- The result of a primitive that touches neither heap nor sink. -/
def compute (p : Primitive) (a b : Value) : Except Complaint Value :=
  match p with
  | .add => sum a b
  | .sub => subtraction.apply a b
  | .mul => multiplication.apply a b
  | .div => division.apply a b
  | .rem => remaindering.apply a b
  | .lt => (less.apply a b).map Value.bool
  | .le => (lessOrEqual.apply a b).map Value.bool
  | .gt => (greater.apply a b).map Value.bool
  | .ge => (greaterOrEqual.apply a b).map Value.bool
  | .eq => (equal a b).map Value.bool
  | .ne => (equal a b).map fun same => .bool !same
  | .not => a.asBool.map fun b => .bool !b
  | .print | .range => .ok .empty

/-- Calls a primitive. A wrong number of arguments is refused. -/
def apply (p : Primitive) (args : List Value) (heap : Heap) (sink : Sink) : PrimitiveResult :=
  match p, args with
  | .print, [a] => printValue a heap sink
  | .range, [a, b] => makeRange a b heap sink
  | .not, [a] => ⟨heap, sink, compute .not a a⟩
  | p, args =>
    match p.arity, args with
    | 2, [a, b] => ⟨heap, sink, compute p a b⟩
    | arity, args => ⟨heap, sink, .error (.arityMismatch p.name arity args.length)⟩

end Primitive

end TreeMachine
