import TreeMachine.Execution.Call
import TreeMachine.Session

/-!
# A reference evaluator

The meaning of a linked program in direct style, by recursion over the tree: an expression has a
value, a statement is completed in one of three ways, and a call evaluates the body of a function in
an environment of its own. There are no stacks, no stages and no operands, and an environment holds
variables only.

A computation (`Eval`) changes the environment, the heap and the sink, and fails with a fault or has
a result, or has neither because its fuel did not suffice. The recursion is tied with fuel: an
`Evaluator` is what is available for the parts of a node, and each one is defined from the one with
less fuel (`Program.evaluator`).

It is written to be read beside an informal description of the language: what a node means is said
in the lines for its kind, with the order of evaluation as the order of the lines. A loop evaluates
its condition and its body until the condition fails or the body is left; the cases of an arm are
evaluated from left to right up to the first one that is equal; a sequence catches the jumps to its
own labels and hands on the others. Complaints have the places that the machine gives them.

The machine and the evaluator have in common what a primitive does, how a range answers to messages,
how names are resolved, and how values are compared. These are defined once. What the evaluator is
to specify is control: which parts are evaluated, in which order and how often, what a jump and a
return do, and in which environment a variable is looked up.

Two things are left out. The evaluator does not collect, and it has no debugger. It also knows loops
with one variable and one iterator only, other loops being a defect.
-/

namespace TreeMachine

/-- What a computation changes: the variables of the current call, the heap and the sink. -/
structure World where
  env : Env
  heap : Heap
  sink : Sink

/-- A computation. It has no outcome when its fuel does not suffice. -/
def Eval (α : Type) :=
  World → Option (Except Fault α × World)

namespace Eval

instance : Monad Eval where
  pure a := fun w => some (.ok a, w)
  bind x f := fun w =>
    match x w with
    | none => none
    | some (.error e, w) => some (.error e, w)
    | some (.ok a, w) => f a w

/-- Fails. -/
def fail {α : Type} (e : Fault) : Eval α :=
  fun w => some (.error e, w)

/-- Fails for a complaint about the program. -/
def complain {α : Type} (place : Place) (c : Complaint) : Eval α :=
  fail (.user place c)

/-- Fails for a defect of the program's tables. -/
def defect {α : Type} (place : Place) (d : Defect) : Eval α :=
  fail (.internal place d)

/-- Has a result, or fails for a complaint about the program. -/
def ofExcept {α : Type} (place : Place) : Except Complaint α → Eval α
  | .ok a => pure a
  | .error c => complain place c

/-- Reads the world. -/
def world : Eval World :=
  fun w => some (.ok w, w)

/-- Gives a variable a value. -/
def setVar (x : VarId) (v : Value) : Eval Unit :=
  fun w => some (.ok (), { w with env := w.env.put (.var x) v })

/-- Applies a primitive. -/
def perform (place : Place) (q : Primitive) (args : List Value) : Eval Value :=
  fun w =>
    let done := q.apply args w.heap w.sink
    some (done.result.mapError (.user place), { w with heap := done.heap, sink := done.sink })

/-- Computes in an environment of its own. -/
def within {α : Type} (env : Env) (x : Eval α) : Eval α :=
  fun w => (x { w with env := env }).map fun done => (done.1, { done.2 with env := w.env })

end Eval

/-- How a statement or a sequence is completed: control goes on behind it, or leaves the call with a
value, or goes to a label. -/
inductive Completion
  | normal
  | return (v : Value)
  | jump (label : StmtId)

/-- The environment of a call, which holds the parameters only. -/
def Env.ofParams (params : List VarId) (args : List Value) : Env :=
  (params.zip args).foldl (fun env b => env.put (.var b.1) b.2) .empty

/-- What is available for the parts of a node: the value of an expression, with the scope in which
it calls functions; the completion of the rest of a sequence, with the statement that the sequence
is in; the completion of a loop from its next test on, and of a loop over a collection from a state
on; and the completion of a select from one of its arms on. -/
structure Evaluator where
  expr : ScopeId → ExprId → Eval Value
  sequence : Option StmtId → StmtId → Eval Completion
  loop : StmtId → ScopeId → ExprId → Option StmtId → Eval Completion
  iterate : StmtId → ScopeId → VarId → Option StmtId → Value → Value → Eval Completion
  arms : Value → StmtId → Eval Completion

namespace Evaluator

variable (p : Program) (ev : Evaluator)

/-- A body, which may be empty. -/
def body (owner : Option StmtId) : Option StmtId → Eval Completion
  | none => pure .normal
  | some first => ev.sequence owner first

/-! ### Calls -/

/-- Calls a function with arguments. A body that is completed normally has the empty value. -/
def enter (place : Place) (id : FnId) (args : List Value) : Eval Value :=
  match p.function? id with
  | none => .defect place (.dangling id.text)
  | some f =>
    if args.length ≠ f.arity then .complain place (.arityMismatch f.name f.arity args.length)
    else
      match f.body with
      | .primitive q => .perform place q args
      | .code first => do
        match ← Eval.within (.ofParams f.params args) (ev.body none first) with
        | .normal => return .empty
        | .return v => return v
        | .jump l => .defect place (.labelOutOfReach l)

/-- Calls what a value stands for with arguments, by names visible in a scope. -/
def call (place : Place) (scope : ScopeId) (callee : Value) (args : List Value) : Eval Value :=
  match callee with
  | .function id => ev.enter p place id args
  | .selector name => do
    match p.answer? (← Eval.world).heap place name args with
    | some (.ok v) => return v
    | some (.error e) => .fail e
    | none =>
      match p.resolve scope name with
      | .ok id => ev.enter p place id args
      | .error c => .complain place c
  | .closure _ => .complain place .closureUnsupported
  | v => .complain place (.notCallable v.kindName)

/-- Sends a message to a collection. -/
def send (i : StmtId) (scope : ScopeId) (m : Message) (args : List Value) : Eval Value :=
  ev.call p (.stmt i) scope (.selector m.selector) args

/-! ### Expressions -/

/-- The values of expressions, evaluated from left to right. -/
def exprs (scope : ScopeId) : List ExprId → Eval (List Value)
  | [] => return []
  | e :: es => do
    let v ← ev.expr scope e
    let vs ← exprs scope es
    return v :: vs

/-- The truth value of a condition. -/
def condition (scope : ScopeId) (cond : ExprId) : Eval Bool := do
  let v ← ev.expr scope cond
  .ofExcept (.expr cond) v.asBool

/-- The value of a variable, which must have one. -/
def readVar (e : ExprId) (x : VarId) : Eval Value := do
  match (← Eval.world).env.get? (.var x) with
  | some v => .ofExcept (.expr e) v.read
  | none => .complain (.expr e) (.unknownVariable (p.varName x))

/-- Gives a value to a variable, which must have one, if only an uninitialized one. -/
def assign (e : ExprId) (x : VarId) (v : Value) : Eval Value := do
  match (← Eval.world).env.get? (.var x) with
  | some _ =>
    Eval.setVar x v
    return v
  | none => .complain (.expr e) (.unknownVariable (p.varName x))

/-- The value of an expression. -/
def evalExpr (scope : ScopeId) (e : ExprId) : Eval Value :=
  match p.expr? e with
  | none => .defect (.expr e) (.dangling e.text)
  | some (.literal s) => return .scalar s
  | some (.var x) => readVar p e x
  | some (.declare x) => do
    Eval.setVar x .uninitialized
    return .empty
  | some (.assign x value) => do
    let v ← ev.expr scope value
    assign p e x v
  | some (.name name) => return .selector name
  | some (.function id) => return .function id
  | some (.call callee args) => do
    let fn ← ev.expr scope callee
    let vs ← ev.exprs scope args
    ev.call p (.expr e) scope fn vs
  | some (.choose cond thenExpr elseExpr) => do
    let b ← ev.condition scope cond
    ev.expr scope (if b then thenExpr else elseExpr)
  | some (.closure ..) => .complain (.expr e) .closureUnsupported

/-! ### Statements -/

/-- A loop from its next test on. -/
def evalLoop (i : StmtId) (scope : ScopeId) (cond : ExprId) (body : Option StmtId) :
    Eval Completion := do
  if ← ev.condition scope cond then
    match ← ev.body (some i) body with
    | .normal => ev.loop i scope cond body
    | c => return c
  else return .normal

/-- A loop over a collection from a state on. -/
def evalIterate (i : StmtId) (scope : ScopeId) (index : VarId) (body : Option StmtId)
    (collection state : Value) : Eval Completion := do
  let valid ← ev.send p i scope .valid [collection, state]
  if ← .ofExcept (.stmt i) valid.asBool then
    let element ← ev.send p i scope .index [collection, state]
    Eval.setVar index element
    match ← ev.body (some i) body with
    | .normal =>
      let next ← ev.send p i scope .next [collection, state]
      ev.iterate i scope index body collection next
    | c => return c
  else return .normal

/-- Whether one of the cases has the value that is selected. The cases behind it are not
evaluated. -/
def matchesOne (scope : ScopeId) (selected : Value) : List ExprId → Eval Bool
  | [] => return false
  | case :: cases => do
    let v ← ev.expr scope case
    if ← .ofExcept (.expr case) (Primitive.equal v selected) then return true
    else matchesOne scope selected cases

/-- A select from one of its arms on. An arm without cases takes every value. -/
def evalArms (selected : Value) (i : StmtId) : Eval Completion :=
  match p.stmt? i with
  | some ⟨.arm cases body, next, _, scope⟩ => do
    if ← (if cases = [] then pure true else ev.matchesOne scope selected cases) then
      ev.body (some i) body
    else
      match next with
      | some t => ev.arms selected t
      | none => return .normal
  | _ => .defect (.stmt i) .armOutsideSelect

/-- A statement. -/
def evalStmt (i : StmtId) (s : Stmt) : Eval Completion :=
  match s.kind with
  | .expr e => do
    let _ ← ev.expr s.scope e
    return .normal
  | .block body => ev.body (some i) body
  | .loop cond body testFirst => do
    if testFirst then ev.loop i s.scope cond body
    else
      match ← ev.body (some i) body with
      | .normal => ev.loop i s.scope cond body
      | c => return c
  | .forall [index] [iterator] body => do
    let collection ← ev.expr s.scope iterator
    let state ← ev.send p i s.scope .start [collection]
    ev.iterate i s.scope index body collection state
  | .forall [_] iterators _ => .defect (.stmt i) (.iteratorCount iterators.length)
  | .forall indices _ _ => .defect (.stmt i) (.indexCount indices.length)
  | .branch cond thenBody elseBody => do
    let b ← ev.condition s.scope cond
    ev.body (some i) (if b then thenBody else elseBody)
  | .select selector arms => do
    let v ← ev.expr s.scope selector
    match arms with
    | some a => ev.arms v a
    | none => return .normal
  | .arm .. => .defect (.stmt i) .armOutsideSelect
  | .return none => return .return .empty
  | .return (some e) => do
    let v ← ev.expr s.scope e
    return .return v
  | .label _ => return .normal
  | .goto target => return .jump target

/-- The rest of a sequence, from a statement on. A jump to a label that the owner of the sequence
encloses directly goes on in the sequence that holds the label; other jumps and returns go out. -/
def evalSequence (owner : Option StmtId) (i : StmtId) : Eval Completion :=
  match p.stmt? i with
  | none => .defect (.stmt i) (.dangling i.text)
  | some s => do
    match ← ev.evalStmt p i s with
    | .normal => ev.body owner s.next
    | .return v => return .return v
    | .jump l => if p.parent? l = owner then ev.sequence owner l else return .jump l

/-! ### Fuel -/

/-- Nothing is available without fuel. -/
def exhausted : Evaluator where
  expr _ _ := fun _ => none
  sequence _ _ := fun _ => none
  loop _ _ _ _ := fun _ => none
  iterate _ _ _ _ _ _ := fun _ => none
  arms _ _ := fun _ => none

/-- What is available with one unit of fuel more. -/
def refuel : Evaluator where
  expr := ev.evalExpr p
  sequence := ev.evalSequence p
  loop := ev.evalLoop
  iterate := ev.evalIterate p
  arms := ev.evalArms p

end Evaluator

namespace Program

/-- **The reference evaluator** of a program, with fuel. -/
def evaluator (p : Program) : (fuel : Nat) → Evaluator
  | 0 => .exhausted
  | fuel + 1 => (p.evaluator fuel).refuel p

/-- The meaning of a task: the statements of a module, or a call of the entry function. -/
def evalTask (p : Program) (fuel : Nat) : Task → Eval Unit
  | .module m => do
    match ← (p.evaluator fuel).body none m.body with
    | .jump l => .defect .nowhere (.labelOutOfReach l)
    | _ => return ()
  | .entry id => do
    let _ ← (p.evaluator fuel).enter p .nowhere id []
    return ()

/-- The meaning of tasks one after the other, each with variables and a heap of its own. -/
def evalTasks (p : Program) (fuel : Nat) : List Task → Sink → Option (Except Fault Unit × Sink)
  | [], sink => some (.ok (), sink)
  | t :: ts, sink =>
    match p.evalTask fuel t ⟨.empty, .empty, sink⟩ with
    | none => none
    | some (.error e, w) => some (.error e, w.sink)
    | some (.ok (), w) => p.evalTasks fuel ts w.sink

end Program

end TreeMachine
