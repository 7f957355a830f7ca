import TreeMachine.Execution.Call
import TreeMachine.Execution.Expression
import TreeMachine.Execution.Statement

/-!
# Steps

A step does one unit of work on the current node of the innermost activation and meets what it
demands, or leaves the activation when it has nothing left to do. With tracing on, a line about the
node is written first.

A step is a function of the program, the trace level, the context and the sink. It looks at nothing
else, and it neither charges itself nor collects the heap, which is the machine's task. When the
line of the trace cannot be written the step fails before it has done anything.

Moving past a statement may take several statements off those that wait (`Frame.moveOn`), namely all
that end together with the sequence. The recursion is on the list of the waiting statements; a case
without a stage for a waiting statement is there because the two stacks are separate lists, and does
not arise in a run.

A statement that is moved past leaves no operands (`Frame.advance`). A jump is told apart from other
steps in the result of the step, since the machine does not charge for it.

The step of a context without activations does nothing and says that there is nothing to do. It is
not an error to ask for one.
-/

namespace TreeMachine

/-- How a step went: the context can go on, or it has jumped to a label, or no activation is
left. -/
inductive Progress
  | continue
  | jumped
  | done
  deriving DecidableEq, Repr

/-! ### Moving past a statement -/

namespace Frame

/-- Goes on after a statement, given the statements waiting around it and their stages. The next
statement of the sequence follows if there is one; otherwise the enclosing statement is resumed,
which at stage zero is finished as well. -/
def moveOn (p : Program) (f : Frame) (current : StmtId) :
    List StmtId → List Nat → Except Defect Frame
  | waiting, resumes =>
    match p.stmt? current with
    | none => .error (.dangling current.text)
    | some s =>
      match s.next, waiting, resumes with
      | some next, waiting, resumes =>
        .ok { f with stmt := some next, waiting := waiting, resumes := resumes }
      | none, [], resumes => .ok { f with stmt := none, waiting := [], resumes := resumes }
      | none, _ :: waiting, [] => .ok { f with stmt := none, waiting := waiting, resumes := [] }
      | none, parent :: waiting, 0 :: resumes => moveOn p f parent waiting resumes
      | none, parent :: waiting, (stage + 1) :: resumes =>
        .ok { f with
          stmt := some parent, stage := stage + 1, waiting := waiting, resumes := resumes }

/-- Moves past the current statement. -/
def advance (p : Program) (f : Frame) : Except Defect Frame :=
  let f := { f with stage := 0, operands := [] }
  match f.stmt with
  | some current => f.moveOn p current f.waiting f.resumes
  | none => .ok f

end Frame

/-! ### Tracing -/

/-- The line of the trace about a node: its kind and its name, and from the second level on also its
stage and the number of operands. -/
def traceLine (level : Nat) (kind : String) (place : Place) (stage operands : Nat) : String :=
  let node := kind ++ " " ++ place.text
  if level < 2 then node ++ "\n"
  else
    node ++ " stage=" ++ Text.natural stage ++ " operands=" ++ Text.natural operands ++ "\n"

/-! ### One step -/

/-- A node that is about to be worked on: what the trace says about it, and the work. -/
structure Pending where
  kind : String
  stage : Nat
  work : Work

/-- The node that a frame is about to work on. Nothing for a frame that has nothing left to do. -/
def Frame.pending? (p : Program) (f : Frame) : Option (Except Defect Pending) :=
  match f.expr, f.stmt with
  | some id, _ =>
    match p.expr? id with
    | some e => some (.ok ⟨e.kindName, f.exprStage, f.workExpr p id e⟩)
    | none => some (.error (.dangling id.text))
  | none, some id =>
    match p.stmt? id with
    | some s => some (.ok ⟨s.kind.name, f.stage, f.workStmt p id s⟩)
    | none => some (.error (.dangling id.text))
  | none, none => none

namespace Context

/-- Whether the context can go on. -/
def progress (c : Context) : Progress :=
  if c.isFinished then .done else .continue

/-- Meets the demand of a unit of work on the innermost activation. -/
def meet (p : Program) (place : Place) (callers : List Frame) (work : Work) (c : Context)
    (sink : Sink) : Effect Progress :=
  let (f, result) := work
  let c := { c with frames := f :: callers }
  match result with
  | .error e => ⟨c, sink, .error e⟩
  | .ok .pending => ⟨c, sink, .ok c.progress⟩
  | .ok .complete =>
    match f.advance p with
    | .ok f =>
      let c := { c with frames := f :: callers }
      ⟨c, sink, .ok c.progress⟩
    | .error d => ⟨c, sink, .error (.internal place d)⟩
  | .ok .jumped => ⟨c, sink, .ok .jumped⟩
  | .ok (.leave v) =>
    let c := c.detach v
    ⟨c, sink, .ok c.progress⟩
  | .ok (.call operands) =>
    let called := c.invoke p operands sink
    ⟨called.context, called.sink, called.result.map fun () => called.context.progress⟩

/-- Takes one step. -/
def step (p : Program) (traceLevel : Nat) (c : Context) (sink : Sink) : Effect Progress :=
  match c.frames with
  | [] => ⟨c, sink, .ok .done⟩
  | f :: callers =>
    match f.pending? p with
    | none =>
      let c := c.detach .empty
      ⟨c, sink, .ok c.progress⟩
    | some (.error d) => ⟨c, sink, .error (.internal f.cursor d)⟩
    | some (.ok node) =>
      if traceLevel = 0 then c.meet p f.cursor callers node.work sink
      else
        let line := traceLine traceLevel node.kind f.cursor node.stage f.operands.length
        match sink.write .trace line with
        | (sink, .ok ()) => c.meet p f.cursor callers node.work sink
        | (sink, .error e) => ⟨c, sink, .error (.channel e)⟩

end Context

end TreeMachine
