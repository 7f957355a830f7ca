import TreeMachine.Frame

/-!
# Units of work

A node is worked on one unit at a time. A unit of work changes the frame, also when it fails: the
operands that it has taken stay taken.

This is why work is a pair of a frame and a result, and not a computation that gives a frame or
fails. A failure ends the run, but the context that it leaves behind can still be looked at, and be
written as a snapshot, so it matters what is in it.

A failure is either a complaint, for which the program is to blame, or a defect, for which the
machine is. The two are told apart at the place where they arise (`Frame.complain`, `Frame.defect`),
and a defect names the inconsistency that was met. The functions below are the ways in which all
work on nodes is put together: work ends with a demand, evaluates a part, runs a sequence, sends a
message, or takes an operand and goes on with it. They are written with continuations, so that the
work on a node reads from top to bottom, and so that a property of units of work can be shown once
for each of them (`Frame.StmtRules`, `Frame.ExprRules`).
-/

namespace TreeMachine

/-- What a unit of work leaves behind: the frame, and what is demanded or what went wrong. -/
abbrev Work := Frame × Except Fault Demand

namespace Frame

/-- Demands something. -/
def demand (f : Frame) (d : Demand) : Work :=
  (f, .ok d)

/-- Fails for a complaint about the program. -/
def complain (f : Frame) (place : Place) (c : Complaint) : Work :=
  (f, .error (.user place c))

/-- Fails for a defect of the machine. -/
def defect (f : Frame) (place : Place) (d : Defect) : Work :=
  (f, .error (.internal place d))

/-- Evaluates an expression inside the current node, which is resumed at a stage afterwards. -/
def evaluate (f : Frame) (e : ExprId) (resume : Nat) : Work :=
  (f.eval e resume).demand .pending

/-- Runs a sequence inside the current statement, which is resumed at a stage afterwards. -/
def run (f : Frame) (child : Option StmtId) (resume : Nat) : Work :=
  let (f, d) := f.descend child resume
  f.demand d

/-- Sends a message. -/
def send (f : Frame) (m : Message) (collection : Value) (state : Option Value) : Work :=
  let (f, n) := f.pushMessage m collection state
  f.demand (.call n)

/-- Takes the top operand. -/
def pop (f : Frame) (place : Place) (next : Value → Frame → Work) : Work :=
  match f.operands with
  | [] => f.defect place .operandUnderflow
  | v :: rest => next v { f with operands := rest }

/-- Takes the top operand, which must be a truth value. -/
def popBool (f : Frame) (place : Place) (next : Bool → Frame → Work) : Work :=
  f.pop place fun v f =>
    match v.asBool with
    | .ok b => next b f
    | .error c => f.complain place c

end Frame

end TreeMachine
