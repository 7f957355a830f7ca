import TreeMachine.Frame

/-!
# Execution contexts

A context is one flow of control: the chain of its activations, innermost first, the heap that they
share, and the number of steps taken. It is all that is needed to go on at a later time.

The program is not part of a context, and neither are the debugger, the input and the sink. A
context can be run with any program, and it means something only with the one that it was made for:
the ids that it holds are positions in the tables of that program. What surrounds a context while it
runs is a machine.

An activation is left by handing its value to the one below (`Context.detach`). When the last
activation is left, the value is dropped and the context is finished. The roots of a collection are
the values in the environments and among the operands of all activations, not only of the innermost
one; the stacks of statements and expressions hold no values.

The number of steps is not changed by a step. It is the machine that charges a step, and it does not
charge all of them. Contexts can be compared for equality, which the tests and several of the
theorems do: a context that was written and read back is the same context.
-/

namespace TreeMachine

/-- One flow of control. The caller of an activation comes after it. -/
structure Context where
  frames : List Frame
  heap : Heap
  steps : Nat
  deriving DecidableEq

namespace Context

/-- A context with a single activation, which starts at a statement. -/
def start (stmt : Option StmtId) (scope : ScopeId) : Context :=
  ⟨[.start stmt scope], .empty, 0⟩

/-- A context that runs the statements of a module. -/
def forModule (m : Module) : Context :=
  start m.body m.scope

/-- A context with an activation that has nothing to do. The first call in it runs in this very
activation. -/
def idle (scope : ScopeId) : Context :=
  start none scope

/-- Whether no activation is left. -/
def isFinished (c : Context) : Bool :=
  c.frames.isEmpty

/-- The number of activations. -/
def depth (c : Context) : Nat :=
  c.frames.length

/-- The innermost activation. -/
def top? (c : Context) : Option Frame :=
  c.frames.head?

/-- The node that is worked on. -/
def cursor (c : Context) : Place :=
  match c.frames with
  | f :: _ => f.cursor
  | [] => .nowhere

/-- Leaves the innermost activation. Its caller gets the value as an operand. -/
def detach (c : Context) (v : Value) : Context :=
  match c.frames with
  | _ :: caller :: rest => { c with frames := caller.push v :: rest }
  | _ => { c with frames := [] }

/-- The values that keep objects alive. -/
def roots (c : Context) : List Value :=
  c.frames.flatMap Frame.roots

/-- Frees the objects that no activation reaches. Also gives their number. -/
def collect (c : Context) : Context × Nat :=
  let (heap, freed) := c.heap.collect c.roots
  ({ c with heap := heap }, freed)

end Context

end TreeMachine
