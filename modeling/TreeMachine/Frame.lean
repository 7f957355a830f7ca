import TreeMachine.Env
import TreeMachine.Program
import TreeMachine.Stage

/-!
# Activations

A frame is the state of one activation: a module's statements or a call of a function being run. Its
pending work is data. The statements around the current one wait with the stage at which they are
resumed, the expressions around the current one likewise, and evaluated operands wait to be used.
All stacks have their top first.

A unit of work on the current node changes the frame and demands something of the machine around it:
to go on, to move past the finished statement, to make a call, or to leave the activation.

Since nothing of a run lives on a call stack of the host, an activation can be stopped between any
two units of work, be written down and be resumed elsewhere. The price is that the stacks have to
fit together without the help of the types: the waiting statements and the stages at which they are
resumed are two lists of the same length, which are those of the statements that enclose the current
one; and the number of operands is determined by the stages of all the nodes that wait. None of this
is required here. The operations below are total, take off what is there and leave the rest, also
where a stack is shorter than it should be (`Frame.popWaiting`); what they keep is shown later on,
as an invariant of runs (`Frame.Shaped`, `Frame.Mirrors`).

The environment is part of the activation. A call gets a new one, so a function does not see the
variables of its caller.
-/

namespace TreeMachine

/-- The state of one activation. The two stacks of waiting statements and of the stages at which
they are resumed belong together. Without a current expression the current statement is worked on;
without either the activation has nothing left to do. -/
structure Frame where
  env : Env
  waiting : List StmtId
  resumes : List Nat
  suspended : List (ExprId × Nat)
  operands : List Value
  stmt : Option StmtId
  expr : Option ExprId
  stage : Nat
  exprStage : Nat
  function : Option FnId
  scope : ScopeId
  deriving DecidableEq

/-- What is demanded after a unit of work: nothing in particular, to move past the current
statement, nothing because the work was a jump, to leave the activation with a value, or to call
with some of the operands, the callee included. -/
inductive Demand
  | pending
  | complete
  | jumped
  | leave (v : Value)
  | call (operands : Nat)
  deriving DecidableEq

namespace Frame

/-- A frame that starts at a statement. -/
def start (stmt : Option StmtId) (scope : ScopeId) : Frame where
  env := .empty
  waiting := []
  resumes := []
  suspended := []
  operands := []
  stmt := stmt
  expr := none
  stage := 0
  exprStage := 0
  function := none
  scope := scope

/-- Whether there is nothing left to do. -/
def isExhausted (f : Frame) : Bool :=
  f.stmt.isNone && f.expr.isNone

/-- The node that is worked on. -/
def cursor (f : Frame) : Place :=
  match f.expr, f.stmt with
  | some e, _ => .expr e
  | none, some s => .stmt s
  | none, none => .nowhere

/-- The values that keep objects alive. -/
def roots (f : Frame) : List Value :=
  f.env.values ++ f.operands

/-! ### Waiting statements -/

/-- Makes a statement wait, to be resumed at a stage. -/
def pushWaiting (f : Frame) (s : StmtId) (stage : Nat) : Frame :=
  { f with waiting := s :: f.waiting, resumes := stage :: f.resumes }

/-- Takes the innermost waiting statement and its stage off the two stacks. When only the stage is
missing, the statement is gone nevertheless. -/
def popWaiting (f : Frame) : Option (StmtId × Nat) × Frame :=
  match f.waiting, f.resumes with
  | [], _ => (none, f)
  | _ :: waiting, [] => (none, { f with waiting := waiting })
  | s :: waiting, stage :: resumes =>
    (some (s, stage), { f with waiting := waiting, resumes := resumes })

/-- Runs a sequence inside the current statement, which is resumed at a stage afterwards. To be
resumed at stage zero means to be finished with the sequence; when there is no sequence the
statement goes to that stage at once. -/
def descend (f : Frame) (child : Option StmtId) (resume : Nat) : Frame × Demand :=
  match child, f.stmt with
  | some c, some s => ({ f.pushWaiting s resume with stmt := some c, stage := 0 }, .pending)
  | _, _ => if resume = 0 then (f, .complete) else ({ f with stage := resume }, .pending)

/-! ### Expressions -/

/-- Evaluates an expression inside the current node, which is resumed at a stage afterwards. -/
def eval (f : Frame) (e : ExprId) (resume : Nat) : Frame :=
  match f.expr with
  | some current =>
    { f with suspended := (current, resume) :: f.suspended, expr := some e, exprStage := 0 }
  | none => { f with stage := resume, expr := some e, exprStage := 0 }

/-- Pushes an operand. -/
def push (f : Frame) (v : Value) : Frame :=
  { f with operands := v :: f.operands }

/-- Finishes the current expression: its value is remembered and becomes an operand, and the
expression around it is resumed, or else the current statement. -/
def finish (f : Frame) (v : Value) : Frame :=
  let f := match f.expr with
    | some e => { f with env := f.env.put (.expr e) v }
    | none => f
  let f := f.push v
  match f.suspended with
  | (e, stage) :: suspended =>
    { f with suspended := suspended, expr := some e, exprStage := stage }
  | [] => { f with expr := none, exprStage := 0 }

/-! ### Messages -/

/-- Pushes the operands of a message: the selector, the collection, and the state if there is one.
Also gives the number of operands that the message is sent with. -/
def pushMessage (f : Frame) (m : Message) (collection : Value) (state : Option Value) :
    Frame × Nat :=
  let f := (f.push (.selector m.selector)).push collection
  let f := match state with
    | some v => f.push v
    | none => f
  (f, m.argCount + 1)

end Frame

end TreeMachine
