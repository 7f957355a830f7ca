import TreeMachine.Program
import TreeMachine.Source.Basic

/-!
# Linking

Linking turns a program definition into tables. It numbers the nodes, resolves the names of
variables by their lexical frames, chains the statements of each sequence, resolves the labels of
jumps within each body, and picks the entry function. A jump may leave the statements that enclose
it but not enter others.

Statements are numbered when they are reached and expressions when they are complete, in the order
of the definition; the functions of a scope are all declared before any body is linked.

The linker is a state monad over exceptions, and its steps follow the constructors of the definition
by structural recursion (`Link.expr`, `Link.stmt`, `Link.stmts`, `Link.armSeq`). Its state holds the
tables so far and what is known about the place that has been reached:

* the frames of variables, innermost first. A frame is opened by every sequence of statements, by
  the indices of a loop over collections, and by the parameters of a closure or a function;
* the labels of the current body, and its jumps that wait for them. A jump is entered into the
  tables with itself for its target, and is given the label when the body is complete.

A variable must be declared before it is used, but a function may be used before its definition, and
by functions beside it. A reference to a function is bound here, when its body is linked; a call by
name is left alone and is resolved each time that it is made.

The first thing that is wrong, in this order, is the error of the whole. What this amounts to can be
said without running the linker (`Source.Program.Valid`).
-/

namespace TreeMachine

/-- Why a definition cannot be linked. -/
inductive LinkError
  | unknownName (name : String)
  | unresolvedFunction (name : String) (candidates : Nat)
  | duplicateLabel (label : String)
  | unknownLabel (label : String)
  | jumpIntoNested (label : String)
  | missingEntry (name : String)
  | ambiguousEntry (name : String)
  deriving DecidableEq, Repr

/-- The text of a link error. -/
def LinkError.message : LinkError → String
  | .unknownName name => "unknown variable '" ++ name ++ "'"
  | .unresolvedFunction name candidates =>
    "function reference '" ++ name ++ "' does not name a single function ("
      ++ Text.natural candidates ++ " visible)"
  | .duplicateLabel label => "duplicate label '" ++ label ++ "'"
  | .unknownLabel label => "goto targets unknown label '" ++ label ++ "'"
  | .jumpIntoNested label => "goto '" ++ label ++ "' jumps into a nested statement"
  | .missingEntry name => "entry function '" ++ name ++ "' not found"
  | .ambiguousEntry name => "entry function '" ++ name ++ "' is defined more than once"

/-- The state of linking: the tables so far, the frames of variables that are in scope, innermost
and newest first, and the labels and jumps of the body that is being linked, newest first. -/
structure Linker where
  program : Program
  frames : List (List (String × VarId))
  labels : List (String × StmtId)
  jumps : List (StmtId × String)

/-- A step of linking. -/
abbrev Link := StateT Linker (Except LinkError)

namespace Link

/-! ### Tables -/

/-- Changes the tables. -/
def modifyProgram (f : Program → Program) : Link Unit :=
  modify fun l => { l with program := f l.program }

/-- Adds a scope. -/
def addScope (parent : ScopeId) : Link ScopeId := do
  let id : ScopeId := ⟨(← get).program.scopes.size⟩
  modifyProgram fun p => { p with scopes := p.scopes.push ⟨some parent, []⟩ }
  return id

/-- Adds a variable. -/
def addVar (name : String) : Link VarId := do
  let id : VarId := ⟨(← get).program.vars.size⟩
  modifyProgram fun p => { p with vars := p.vars.push name }
  return id

/-- Adds an expression. -/
def addExpr (e : Expr) : Link ExprId := do
  let id : ExprId := ⟨(← get).program.exprs.size⟩
  modifyProgram fun p => { p with exprs := p.exprs.push e }
  return id

/-- Adds a statement whose kind and successor are not known yet. -/
def addStmt (parent : Option StmtId) (scope : ScopeId) : Link StmtId := do
  let id : StmtId := ⟨(← get).program.stmts.size⟩
  modifyProgram fun p => { p with stmts := p.stmts.push ⟨.block none, none, parent, scope⟩ }
  return id

/-- Sets the kind of a statement. -/
def setKind (id : StmtId) (kind : StmtKind) : Link Unit :=
  modifyProgram fun p =>
    { p with stmts := p.stmts.modify id.index fun s => { s with kind := kind } }

/-- Sets the successor of a statement. -/
def setNext (id : StmtId) (next : Option StmtId) : Link Unit :=
  modifyProgram fun p =>
    { p with stmts := p.stmts.modify id.index fun s => { s with next := next } }

/-- Adds a function and declares it in its scope. -/
def addFunction (f : Function) : Link FnId := do
  let id : FnId := ⟨(← get).program.functions.size⟩
  modifyProgram fun p =>
    { p with
      functions := p.functions.push f
      scopes := p.scopes.modify f.scope.index fun s =>
        { s with functions := s.functions ++ [id] } }
  return id

/-- Sets the first statement of a function. -/
def setBody (id : FnId) (first : Option StmtId) : Link Unit :=
  modifyProgram fun p =>
    { p with functions := p.functions.modify id.index fun f => { f with body := .code first } }

/-! ### Variables -/

/-- Runs a step with a frame of variables more. -/
def withFrame {α : Type} (frame : List (String × VarId)) (step : Link α) : Link α := do
  let outer := (← get).frames
  modify fun l => { l with frames := frame :: l.frames }
  let a ← step
  modify fun l => { l with frames := outer }
  return a

/-- Declares a variable in the innermost frame. -/
def declare (name : String) : Link VarId := do
  let x ← addVar name
  modify fun l =>
    { l with frames := match l.frames with
      | [] => []
      | frame :: frames => ((name, x) :: frame) :: frames }
  return x

/-- The variable that a name refers to: the newest one in the innermost frame that has one. -/
def lookup (name : String) : Link VarId := do
  match (← get).frames.findSome? fun frame => frame.lookup name with
  | some x => return x
  | none => throw (.unknownName name)

/-! ### Labels -/

/-- Declares a label of the current body. -/
def declareLabel (name : String) (id : StmtId) : Link Unit := do
  if ((← get).labels.lookup name).isSome then throw (.duplicateLabel name)
  modify fun l => { l with labels := (name, id) :: l.labels }

/-- Records a jump of the current body. -/
def recordJump (id : StmtId) (label : String) : Link Unit :=
  modify fun l => { l with jumps := (id, label) :: l.jumps }

end Link

/-- The statements that enclose a statement, innermost first, up to a given number. -/
def Program.enclosing (p : Program) (count : Nat) (id : StmtId) : List StmtId :=
  match count, p.parent? id with
  | 0, _ | _, none => []
  | count + 1, some parent => parent :: p.enclosing count parent

/-- Whether the sequence of a label is one that encloses the jump: the top of the body, or a
sequence of a statement around the jump. -/
def Program.canJump (p : Program) (jump label : StmtId) : Bool :=
  match p.parent? label with
  | none => true
  | some parent => (p.enclosing p.stmts.size jump).contains parent

namespace Link

/-- Resolves one jump of the current body. -/
def resolveJump (jump : StmtId × String) : Link Unit := do
  let l ← get
  match l.labels.lookup jump.2 with
  | none => throw (.unknownLabel jump.2)
  | some target =>
    if l.program.canJump jump.1 target then setKind jump.1 (.goto target)
    else throw (.jumpIntoNested jump.2)

/-- Links a body, whose labels and jumps are its own, and resolves its jumps. -/
def withBody {α : Type} (step : Link α) : Link α := do
  let outer ← get
  modify fun l => { l with labels := [], jumps := [] }
  let a ← step
  (← get).jumps.reverse.forM resolveJump
  modify fun l => { l with labels := outer.labels, jumps := outer.jumps }
  return a

/-! ### Statements and expressions -/

mutual

/-- Links an expression. -/
def expr (scope : ScopeId) : Source.Expr → Link ExprId
  | .scalar s => addExpr (.literal s)
  | .var name => do
    let x ← lookup name
    addExpr (.var x)
  | .declare name => do
    let x ← declare name
    addExpr (.declare x)
  | .assign name value => do
    let target ← lookup name
    let value ← expr scope value
    addExpr (.assign target value)
  | .name name => addExpr (.name name)
  | .function name => do
    match (← get).program.visible scope name with
    | [f] => addExpr (.function f)
    | fs => throw (.unresolvedFunction name fs.length)
  | .call callee args => do
    let callee ← expr scope callee
    let args ← exprs scope args
    addExpr (.call callee args)
  | .choose cond thenExpr elseExpr => do
    let cond ← expr scope cond
    let thenExpr ← expr scope thenExpr
    let elseExpr ← expr scope elseExpr
    addExpr (.choose cond thenExpr elseExpr)
  | .closure params body => do
    let (params, first) ← withFrame [] do
      let params ← params.mapM declare
      let first ← withBody (withFrame [] (stmts scope none body))
      return (params, first)
    addExpr (.closure params first)

/-- Links expressions in order. -/
def exprs (scope : ScopeId) : List Source.Expr → Link (List ExprId)
  | [] => return []
  | e :: es => do
    let id ← expr scope e
    let ids ← exprs scope es
    return id :: ids

/-- Links a statement inside another one, or at the top of a body. Statements that enclose others
are numbered before them. -/
def stmt (scope : ScopeId) (parent : Option StmtId) : Source.Stmt → Link StmtId
  | .expr e => do
    let id ← addStmt parent scope
    let e ← expr scope e
    setKind id (.expr e)
    return id
  | .block body => do
    let id ← addStmt parent scope
    let body ← withFrame [] (stmts scope (some id) body)
    setKind id (.block body)
    return id
  | .loop cond body testLast => do
    let id ← addStmt parent scope
    let cond ← expr scope cond
    let body ← withFrame [] (stmts scope (some id) body)
    setKind id (.loop cond body !testLast)
    return id
  | .forall indices iterators body => do
    let id ← addStmt parent scope
    let iterators ← exprs scope iterators
    let (indices, body) ← withFrame [] do
      let indices ← indices.mapM declare
      let body ← withFrame [] (stmts scope (some id) body)
      return (indices, body)
    setKind id (.forall indices iterators body)
    return id
  | .branch cond thenBody elseBody => do
    let id ← addStmt parent scope
    let cond ← expr scope cond
    let thenBody ← withFrame [] (stmts scope (some id) thenBody)
    let elseBody ← withFrame [] (stmts scope (some id) elseBody)
    setKind id (.branch cond thenBody elseBody)
    return id
  | .select selector arms => do
    let id ← addStmt parent scope
    let selector ← expr scope selector
    let first ← armSeq scope id arms
    setKind id (.select selector first)
    return id
  | .return none => do
    let id ← addStmt parent scope
    setKind id (.return none)
    return id
  | .return (some value) => do
    let id ← addStmt parent scope
    let value ← expr scope value
    setKind id (.return (some value))
    return id
  | .label name => do
    let id ← addStmt parent scope
    declareLabel name id
    setKind id (.label name)
    return id
  | .goto label => do
    let id ← addStmt parent scope
    recordJump id label
    setKind id (.goto id)
    return id

/-- Links the statements of a sequence and chains them. The result is the first of them. -/
def stmts (scope : ScopeId) (parent : Option StmtId) : List Source.Stmt → Link (Option StmtId)
  | [] => return none
  | s :: ss => do
    let id ← stmt scope parent s
    let next ← stmts scope parent ss
    setNext id next
    return some id

/-- Links an arm of a select. -/
def arm (scope : ScopeId) (select : StmtId) : Source.Arm → Link StmtId
  | .mk cases body => do
    let id ← addStmt (some select) scope
    let cases ← exprs scope cases
    let body ← withFrame [] (stmts scope (some id) body)
    setKind id (.arm cases body)
    return id

/-- Links the arms of a select and chains them. The result is the first of them. -/
def armSeq (scope : ScopeId) (select : StmtId) : List Source.Arm → Link (Option StmtId)
  | [] => return none
  | a :: as => do
    let id ← arm scope select a
    let next ← armSeq scope select as
    setNext id next
    return some id

end

/-- Links a body: a sequence at the top. -/
def body (scope : ScopeId) (ss : List Source.Stmt) : Link (Option StmtId) :=
  withBody (withFrame [] (stmts scope none ss))

/-! ### Functions and modules -/

/-- Declares a function, without linking its body. -/
def declareFunction (scope : ScopeId) (f : Source.Function) : Link FnId := do
  let params ← f.params.mapM addVar
  addFunction ⟨f.name, params, .code none, scope⟩

mutual

/-- Links the body of a declared function, then the functions inside it. -/
def function (outer : ScopeId) (id : FnId) : Source.Function → Link Unit
  | .mk _ params functions ss => do
    let scope ← addScope outer
    let inner ← functions.mapM (declareFunction scope)
    let ids := match (← get).program.function? id with
      | some f => f.params
      | none => []
    withFrame (params.zip ids).reverse do
      let first ← body scope ss
      setBody id first
      functionSeq scope inner functions

/-- Links the bodies of declared functions. -/
def functionSeq (outer : ScopeId) (ids : List FnId) : List Source.Function → Link Unit
  | [] => return
  | f :: fs =>
    match ids with
    | [] => return
    | id :: ids => do
      function outer id f
      functionSeq outer ids fs

end

/-- Links a module. The result is its functions. -/
def module (m : Source.Module) : Link (List FnId) := do
  let scope ← addScope Program.rootScope
  let ids ← m.functions.mapM (declareFunction scope)
  let first ← withFrame [] do
    let first ← body scope m.body
    functionSeq scope ids m.functions
    return first
  modifyProgram fun p => { p with modules := p.modules.push ⟨m.name, first, scope⟩ }
  return ids

/-! ### Programs -/

/-- The name of the entry function when none is given. -/
def defaultEntry : String := "main"

/-- The entry function, among the functions of modules. The default one may be missing, but no
name may be taken twice. -/
def entry (candidates : List FnId) (requested : Option String) : Link (Option FnId) := do
  let p := (← get).program
  let name := requested.getD defaultEntry
  match candidates.filter (fun f => p.functionName f == name), requested with
  | [f], _ => return some f
  | [], none => return none
  | [], some _ => throw (.missingEntry name)
  | _, _ => throw (.ambiguousEntry name)

/-- Links the modules of a program and picks its entry function. -/
def program (d : Source.Program) : Link Unit := do
  let ids ← d.modules.mapM module
  let first ← entry ids.flatten d.entry
  modifyProgram fun p => { p with entry := first }

end Link

/-- The program without modules: the primitives, declared in the root scope, and the iterable type
of ranges. -/
def Program.base : Program where
  stmts := #[]
  exprs := #[]
  vars := #[]
  functions := (Primitive.all.map fun p =>
    (⟨p.name, [], .primitive p, Program.rootScope⟩ : Function)).toArray
  scopes := #[⟨none, (List.range Primitive.all.length).map FnId.mk⟩]
  modules := #[]
  entry := none
  iterables := [(Iterable.rangeType, Iterable.range)]

/-- The linked form of a program definition. -/
def Program.link (d : Source.Program) : Except LinkError Program := do
  let ((), l) ← (Link.program d).run ⟨Program.base, [], [], []⟩
  return l.program

end TreeMachine
