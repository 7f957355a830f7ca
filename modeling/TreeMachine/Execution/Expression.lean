import TreeMachine.Execution.Work

/-!
# Working on expressions

A simple expression is finished in one unit of work. The others have their parts evaluated one at a
time, from left to right, and are resumed with the value of the part as top operand.

When an expression is finished, its value is put into the environment under the expression, besides
becoming an operand. No expression reads it back; it is there for a loop over a collection, which
finds its collection under the iterator expression.

A conditional expression does not wait for the side that is taken: the side is evaluated in its
place, with the same expressions suspended around it. So a chain of conditionals needs no more room
than one, and the value of a conditional is remembered for the side and not for the conditional
itself. A loop over a collection writes its collection under the iterator expression once more for
that reason.

An assignment needs a variable that has been declared or bound in this activation. Linking has found
the declaration of every variable, but at a run the declaration may have been jumped over, or the
variable may be a parameter of a function around; then it is unknown, and to use it is a complaint.
Closures have no value: evaluating one is a complaint.
-/

namespace TreeMachine

namespace Frame

/-- The value of an expression without parts; a declaration also takes effect. Closures have no
value yet. -/
def leafValue (p : Program) (f : Frame) : Expr → Except Complaint (Value × Frame)
  | .var x =>
    match f.env.get? (.var x) with
    | some v => return (← v.read, f)
    | none => throw (.unknownVariable (p.varName x))
  | .declare x => return (.empty, { f with env := f.env.declare x })
  | .literal s => return (.scalar s, f)
  | .name name => return (.selector name, f)
  | .function id => return (.function id, f)
  | .closure .. | .assign .. | .call .. | .choose .. => throw .closureUnsupported

/-- Works on an expression without parts. -/
def workLeaf (p : Program) (id : ExprId) (e : Expr) (f : Frame) : LeafStage → Work
  | .eval =>
    match f.leafValue p e with
    | .ok (v, f) => (f.finish v).demand .pending
    | .error c => f.complain (.expr id) c

/-- Works on an assignment. Only a variable that has a value, if only an uninitialized one, can be
assigned to. -/
def workAssign (p : Program) (id : ExprId) (target : VarId) (value : ExprId) (f : Frame) :
    AssignStage → Work
  | .eval => f.evaluate value AssignStage.store.number
  | .store =>
    f.pop (.expr id) fun v f =>
      match f.env.get? (.var target) with
      | some _ => ({ f with env := f.env.put (.var target) v }.finish v).demand .pending
      | none => f.complain (.expr id) (.unknownVariable (p.varName target))

/-- Works on a conditional expression. The side that is taken is evaluated in its place. -/
def workChoose (id cond thenExpr elseExpr : ExprId) (f : Frame) : BranchStage → Work
  | .test => f.evaluate cond BranchStage.branch.number
  | .branch =>
    f.pop (.expr id) fun v f =>
      match v.asBool with
      | .ok b =>
        { f with expr := some (if b then thenExpr else elseExpr), exprStage := 0 }.demand .pending
      | .error c => f.complain (.expr cond) c

/-- Works on a call. -/
def workCall (id callee : ExprId) (args : List ExprId) (f : Frame) : CallStage → Work
  | .callee => f.evaluate callee (CallStage.number args.length (.arg 0))
  | .arg i =>
    match args[i]? with
    | some arg => f.evaluate arg (CallStage.number args.length (.arg (i + 1)))
    | none => f.defect (.expr id) (.badStage f.exprStage (Expr.call callee args).kindName)
  | .invoke =>
    { f with exprStage := CallStage.number args.length .complete }.demand (.call (args.length + 1))
  | .complete => f.pop (.expr id) fun v f => (f.finish v).demand .pending

/-- Works on an expression at the stage that the frame's number means. -/
def atExprStage {σ : Type} (f : Frame) (id : ExprId) (e : Expr) (stage : Option σ)
    (work : Frame → σ → Work) : Work :=
  match stage with
  | some stage => work f stage
  | none => f.defect (.expr id) (.badStage f.exprStage e.kindName)

/-- Does one unit of work on an expression. -/
def workExpr (p : Program) (id : ExprId) (e : Expr) (f : Frame) : Work :=
  match e with
  | .assign target value =>
    f.atExprStage id e (AssignStage.ofNumber? f.exprStage) (workAssign p id target value)
  | .choose cond thenExpr elseExpr =>
    f.atExprStage id e (BranchStage.ofNumber? f.exprStage) (workChoose id cond thenExpr elseExpr)
  | .call callee args =>
    f.atExprStage id e (CallStage.ofNumber? args.length f.exprStage) (workCall id callee args)
  | e => f.atExprStage id e (LeafStage.ofNumber? f.exprStage) (workLeaf p id e)

end Frame

end TreeMachine
