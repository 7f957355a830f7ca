import TreeMachine.Execution.Work
import TreeMachine.Primitive.Arithmetic

/-!
# Working on statements

A statement has its expressions evaluated and its sequences run one at a time. What it has to keep
in between, the state of a loop over a collection or the value that a select compares with, it keeps
in the environment.

There is one function for each kind of statement, which takes the stage as an argument and is a
match with one case for each stage; `Frame.workStmt` finds the stage that the number in the frame
means. A loop over a collection is restricted to one variable and one iterator. Other loops can be
written down and linked, and fail when they are begun.

A sequence inside a statement is run by making the statement wait with the stage at which it goes
on. A block, a conditional and a select are resumed at stage zero, which means that they are
finished together with the sequence; so a step that moves past the end of several blocks moves past
all of them at once.

The arms of a select form a sequence, which is run like any other. An arm whose cases all differ
from the selected value is moved past, so that the next arm is tried. The arm that is taken removes
its select from the waiting statements when its body is finished, and then moves past the select
itself, behind the arms that were not tried.

A jump takes statements off those that wait until the one around the label is on top. It does not
run anything that it passes, and it drops all operands.
-/

namespace TreeMachine

namespace Frame

/-- Works on an expression statement. -/
def workExprStmt (e : ExprId) (f : Frame) : ExprStmtStage → Work
  | .eval => f.evaluate e ExprStmtStage.discard.number
  | .discard => { f with operands := f.operands.tail }.demand .complete

/-- Works on a block. -/
def workBlock (body : Option StmtId) (f : Frame) : BlockStage → Work
  | .enter => f.run body 0

/-- Works on a loop with a condition. -/
def workLoop (cond : ExprId) (body : Option StmtId) (testFirst : Bool) (f : Frame) :
    LoopStage → Work
  | .enter =>
    if testFirst then { f with stage := LoopStage.test.number }.demand .pending
    else f.run body LoopStage.test.number
  | .test => f.evaluate cond LoopStage.check.number
  | .check =>
    f.popBool (.expr cond) fun holds f =>
      if holds then f.run body LoopStage.test.number else f.demand .complete

/-! ### Loops over collections -/

/-- The collection that a loop runs over, as it was when the loop was started. -/
def withCollection (f : Frame) (id : StmtId) (iterator : ExprId) (next : Value → Work) : Work :=
  match f.env.get? (.expr iterator) with
  | some v => next v
  | none => f.defect (.stmt id) .iteratorMissing

/-- The state that a loop over a collection is in. -/
def withLoopState (f : Frame) (id : StmtId) (next : Value → Work) : Work :=
  match f.env.get? (.stmt id) with
  | some v => next v
  | none => f.defect (.stmt id) .loopStateMissing

/-- Takes the top operand as the state and asks whether it is valid. -/
def takeLoopState (f : Frame) (id : StmtId) (iterator : ExprId) : Work :=
  f.pop (.stmt id) fun state f =>
    let f := { f with env := f.env.put (.stmt id) state }
    f.withCollection id iterator fun collection =>
      { f with stage := ForallStage.check.number }.send .valid collection (some state)

/-- Asks the collection about the current state. -/
def askAtState (f : Frame) (id : StmtId) (iterator : ExprId) (m : Message) (resume : ForallStage) :
    Work :=
  f.withCollection id iterator fun collection =>
    f.withLoopState id fun state =>
      { f with stage := resume.number }.send m collection (some state)

/-- Works on a loop over a collection. The collection is kept as the value of the iterator
expression also when that expression was replaced by a side of a conditional. -/
def workForall (id : StmtId) (index : VarId) (iterator : ExprId) (body : Option StmtId)
    (f : Frame) : ForallStage → Work
  | .evalIterator => f.evaluate iterator ForallStage.start.number
  | .start =>
    f.pop (.stmt id) fun collection f =>
      { f with
        env := f.env.put (.expr iterator) collection
        stage := ForallStage.valid.number }.send .start collection none
  | .valid => f.takeLoopState id iterator
  | .check =>
    f.popBool (.stmt id) fun valid f =>
      if valid then f.askAtState id iterator .index .body else f.demand .complete
  | .body =>
    f.pop (.stmt id) fun element f =>
      { f with env := f.env.put (.var index) element }.run body ForallStage.next.number
  | .next => f.askAtState id iterator .next .advance
  | .advance => f.takeLoopState id iterator

/-! ### Conditionals and selects -/

/-- Works on a conditional statement. -/
def workBranch (cond : ExprId) (thenBody elseBody : Option StmtId) (f : Frame) :
    BranchStage → Work
  | .test => f.evaluate cond BranchStage.branch.number
  | .branch =>
    f.popBool (.expr cond) fun holds f =>
      { f with stage := 0 }.run (if holds then thenBody else elseBody) 0

/-- Works on a select. -/
def workSelect (id : StmtId) (selector : ExprId) (arms : Option StmtId) (f : Frame) :
    SelectStage → Work
  | .eval => f.evaluate selector SelectStage.dispatch.number
  | .dispatch =>
    f.pop (.stmt id) fun v f => { f with env := f.env.put (.stmt id) v, stage := 0 }.run arms 0

/-- The stage at which an arm leaves its select. -/
def leaveStage (cases : List ExprId) : Nat :=
  ArmStage.number cases.length .leave

/-- Compares the top operand, the value of one of the cases, with the value of the select. Either
the body is run, or the next case is evaluated, or the arm is finished with. -/
def compareCase (id select : StmtId) (cases : List ExprId) (body : Option StmtId) (i : Nat)
    (case : ExprId) (f : Frame) : Work :=
  f.pop (.stmt id) fun v f =>
    match f.env.get? (.stmt select) with
    | none => f.defect (.stmt id) .selectedMissing
    | some selected =>
      match Primitive.equal v selected with
      | .error c => f.complain (.expr case) c
      | .ok true => f.run body (leaveStage cases)
      | .ok false =>
        match cases[i + 1]? with
        | some next => f.evaluate next (ArmStage.number cases.length (.compare (i + 1)))
        | none => f.demand .complete

/-- Works on an arm of a select. Without cases the body is run at once. After the body the whole
select is finished. -/
def workArm (id select : StmtId) (cases : List ExprId) (body : Option StmtId) (f : Frame) :
    ArmStage → Work
  | .enter =>
    match cases with
    | [] => f.run body (leaveStage cases)
    | first :: _ => f.evaluate first (ArmStage.number cases.length (.compare 0))
  | .compare i =>
    match cases[i]? with
    | some case => f.compareCase id select cases body i case
    | none => f.defect (.stmt id) (.badStage f.stage (StmtKind.arm cases body).name)
  | .leave =>
    let (waiting, f) := f.popWaiting
    if waiting = some (select, 0) then { f with stmt := some select }.demand .complete
    else f.defect (.stmt id) .armLostSelect

/-- The select that an arm belongs to. -/
def withSelect (p : Program) (id : StmtId) (s : Stmt) (f : Frame) (next : StmtId → Work) : Work :=
  match s.parent with
  | none => f.defect (.stmt id) .armOutsideSelect
  | some parent =>
    match p.stmt? parent with
    | none => f.defect (.stmt id) (.dangling parent.text)
    | some ⟨.select .., _, _, _⟩ => next parent
    | some _ => f.defect (.stmt id) .armOutsideSelect

/-! ### Returns and jumps -/

/-- Works on a return. -/
def workReturn (id : StmtId) (value : Option ExprId) (f : Frame) : ReturnStage → Work
  | .eval =>
    match value with
    | some e => f.evaluate e ReturnStage.detach.number
    | none => { f.push .empty with stage := ReturnStage.detach.number }.demand .pending
  | .detach => f.pop (.stmt id) fun v f => f.demand (.leave v)

/-- Works on a label. -/
def workLabel (f : Frame) : LeafStage → Work
  | .eval => f.demand .complete

/-- Takes waiting statements and their stages off until the given statement is on top. For no
statement all are taken off. -/
def unwind (target : Option StmtId) : List StmtId → List Nat → List StmtId × List Nat
  | [], resumes => ([], resumes)
  | s :: waiting, resumes =>
    if some s = target then (s :: waiting, resumes) else unwind target waiting resumes.tail

/-- Works on a jump: leaves statements until the one that encloses the label, then goes on with the
label. -/
def workGoto (p : Program) (id target : StmtId) (f : Frame) : LeafStage → Work
  | .eval =>
    match p.stmt? target with
    | none => f.defect (.stmt id) (.dangling target.text)
    | some label =>
      let (waiting, resumes) := unwind label.parent f.waiting f.resumes
      let f := { f with waiting := waiting, resumes := resumes }
      if waiting.head? = label.parent then
        { f with stage := 0, operands := [], stmt := some target }.demand .jumped
      else f.defect (.stmt id) (.labelOutOfReach target)

/-! ### All statements -/

/-- Works on a statement at the stage that the frame's number means. -/
def atStage {σ : Type} (f : Frame) (id : StmtId) (kind : StmtKind) (stage : Option σ)
    (work : Frame → σ → Work) : Work :=
  match stage with
  | some stage => work f stage
  | none => f.defect (.stmt id) (.badStage f.stage kind.name)

/-- Does one unit of work on a statement. A loop over a collection must have one index variable and
one iterator. -/
def workStmt (p : Program) (id : StmtId) (s : Stmt) (f : Frame) : Work :=
  match s.kind with
  | .expr e => f.atStage id s.kind (ExprStmtStage.ofNumber? f.stage) (workExprStmt e)
  | .block body => f.atStage id s.kind (BlockStage.ofNumber? f.stage) (workBlock body)
  | .loop cond body testFirst =>
    f.atStage id s.kind (LoopStage.ofNumber? f.stage) (workLoop cond body testFirst)
  | .forall [index] [iterator] body =>
    f.atStage id s.kind (ForallStage.ofNumber? f.stage) (workForall id index iterator body)
  | .forall [_] iterators _ => f.defect (.stmt id) (.iteratorCount iterators.length)
  | .forall indices _ _ => f.defect (.stmt id) (.indexCount indices.length)
  | .branch cond thenBody elseBody =>
    f.atStage id s.kind (BranchStage.ofNumber? f.stage) (workBranch cond thenBody elseBody)
  | .select selector arms =>
    f.atStage id s.kind (SelectStage.ofNumber? f.stage) (workSelect id selector arms)
  | .arm cases body =>
    withSelect p id s f fun select =>
      f.atStage id s.kind (ArmStage.ofNumber? cases.length f.stage) (workArm id select cases body)
  | .return value => f.atStage id s.kind (ReturnStage.ofNumber? f.stage) (workReturn id value)
  | .label _ => f.atStage id s.kind (LeafStage.ofNumber? f.stage) workLabel
  | .goto target => f.atStage id s.kind (LeafStage.ofNumber? f.stage) (workGoto p id target)

end Frame

end TreeMachine
