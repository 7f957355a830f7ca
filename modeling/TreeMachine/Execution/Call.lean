import TreeMachine.Context
import TreeMachine.Primitive.Apply

/-!
# Calls

The operands of a call are the callee and the arguments. A function is called as it is; a selector
is first tried as a message to an object that is iterable, then looked up in the scope of the
caller. Primitives give their result at once, while other functions get an activation of their own,
whose value the caller receives when the activation is left.

The scope in which a selector is looked up is that of the statement that the calling activation is
at, and not one that was recorded when the selector was evaluated. So a name means what it means at
the place of the call.

A message is recognised by its name and by the type of its first argument. When the machine answers
for the type, it answers whatever functions of that name there are, and the number of arguments is
checked first. For other objects, and for values that are no objects, the name is that of an
ordinary function.

An activation that has nothing left to do is reused for the next call from it (`Context.activate`).
This is how the entry function of a program comes to run in the context that was made for it. A
caller in the middle of an expression always has something left to do, and keeps its activation.

The effect of a call is given as a whole, as a context, a sink and a result (`Effect`): the operands
are taken also when the call fails.
-/

namespace TreeMachine

/-- The effect of some work on a context and on the sink. -/
structure Effect (α : Type) where
  context : Context
  sink : Sink
  result : Except Fault α

/-- The answer that the machine itself gives to a message; nothing for what is no message or not
sent to an object of an iterable type. -/
def Program.answer? (p : Program) (heap : Heap) (place : Place) (name : String)
    (args : List Value) : Option (Except Fault Value) := do
  let m ← Message.ofSelector? name
  let collection ← args.head?
  let h ← collection.asObject?
  match heap.get? h with
  | none => return .error (.internal place (.staleHandle h.text))
  | some o =>
    let it ← p.iterable? o.typeName
    if args.length ≠ m.argCount then
      return .error (.user place (.arityMismatch name m.argCount args.length))
    return (it.answer m o (args[1]?.getD .empty)).mapError (.user place)

/-- The scope in which a sequence calls functions, when it has a first statement, and another scope
otherwise. Nothing for a statement that does not exist. -/
def Program.scopeOf? (p : Program) (first : Option StmtId) (otherwise : ScopeId) : Option ScopeId :=
  match first with
  | some s => (p.stmt? s).map Stmt.scope
  | none => some otherwise

namespace Frame

/-- Binds parameters to arguments. -/
def bind (f : Frame) (params : List VarId) (args : List Value) : Frame :=
  { f with env := (params.zip args).foldl (fun env b => env.put (.var b.1) b.2) f.env }

/-- Begins with a function: its first statement, its scope and its arguments. -/
def begin (f : Frame) (id : FnId) (first : Option StmtId) (scope : ScopeId) (params : List VarId)
    (args : List Value) : Frame :=
  { f with stmt := first, stage := 0, scope := scope, function := some id }.bind params args

end Frame

namespace Context

/-- Gives a value to the innermost activation as an operand. -/
def push (c : Context) (v : Value) : Context :=
  match c.frames with
  | f :: callers => { c with frames := f.push v :: callers }
  | [] => c

/-- Enters a function in an activation of its own. The first call in an idle context runs in the
activation that is there. -/
def activate (c : Context) (id : FnId) (first : Option StmtId) (scope : ScopeId)
    (params : List VarId) (args : List Value) : Context :=
  let (f, callers) := match c.frames with
    | f :: callers => if f.isExhausted then (f, callers) else (.start none scope, f :: callers)
    | [] => (.start none scope, [])
  { c with frames := f.begin id first scope params args :: callers }

/-- Calls a function with arguments. -/
def enter (p : Program) (place : Place) (id : FnId) (args : List Value) (c : Context)
    (sink : Sink) : Effect Unit :=
  match p.function? id with
  | none => ⟨c, sink, .error (.internal place (.dangling id.text))⟩
  | some f =>
    if args.length ≠ f.arity then
      ⟨c, sink, .error (.user place (.arityMismatch f.name f.arity args.length))⟩
    else
      match f.body with
      | .primitive q =>
        let done := q.apply args c.heap sink
        let c := { c with heap := done.heap }
        match done.result with
        | .ok v => ⟨c.push v, done.sink, .ok ()⟩
        | .error e => ⟨c, done.sink, .error (.user place e)⟩
      | .code first =>
        match p.scopeOf? first f.scope with
        | none => ⟨c, sink, .error (.internal place (.dangling id.text))⟩
        | some scope => ⟨c.activate id first scope f.params args, sink, .ok ()⟩

/-- Calls what a value stands for with arguments, by names visible in a scope. -/
def apply (p : Program) (place : Place) (scope : ScopeId) (callee : Value) (args : List Value)
    (c : Context) (sink : Sink) : Effect Unit :=
  match callee with
  | .function id => c.enter p place id args sink
  | .selector name =>
    match p.answer? c.heap place name args with
    | some (.ok v) => ⟨c.push v, sink, .ok ()⟩
    | some (.error e) => ⟨c, sink, .error e⟩
    | none =>
      match p.resolve scope name with
      | .ok id => c.enter p place id args sink
      | .error e => ⟨c, sink, .error (.user place e)⟩
  | .closure _ => ⟨c, sink, .error (.user place .closureUnsupported)⟩
  | v => ⟨c, sink, .error (.user place (.notCallable v.kindName))⟩

/-- Makes a call with the top operands of the innermost activation, of which the callee is the
deepest. The operands are taken also when the call fails. -/
def invoke (p : Program) (operands : Nat) (c : Context) (sink : Sink) : Effect Unit :=
  let place := c.cursor
  match c.frames with
  | [] => ⟨c, sink, .error (.internal place .noActivation)⟩
  | f :: callers =>
    match operands with
    | 0 => ⟨c, sink, .error (.user place .emptyCall)⟩
    | argCount + 1 =>
      match f.operands.drop argCount with
      | [] =>
        ⟨c, sink, .error (.internal place (.tooFewOperands (argCount + 1) f.operands.length))⟩
      | callee :: rest =>
        match p.scopeOf? f.stmt f.scope with
        | none => ⟨c, sink, .error (.internal place (.dangling place.text))⟩
        | some scope =>
          let args := (f.operands.take argCount).reverse
          { c with frames := { f with operands := rest } :: callers }.apply p place scope callee
            args sink

/-- Calls the entry function of a run. -/
def startEntry (p : Program) (entry : FnId) (c : Context) (sink : Sink) : Effect Unit :=
  match c.frames with
  | [] => ⟨c, sink, .error (.internal (.function entry) .finishedContext)⟩
  | f :: callers =>
    { c with frames := f.push (.function entry) :: callers }.invoke p 1 sink

end Context

end TreeMachine
