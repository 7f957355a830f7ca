import TreeMachine.Iteration
import TreeMachine.Primitive.Basic

/-!
# Linked programs

The form of a program that the machine runs. Statements, expressions, variables, functions and
scopes lie in tables and refer to each other by position. A statement knows the next one of its
sequence and the statement that encloses the sequence; names of variables and labels have been
resolved, while functions are still found by name, through the chain of scopes.

The tables describe a forest without being one: a sequence is the list that one gets by following
successors, the sequences inside a statement are given by their first statements, and nothing in the
types keeps two statements from naming the same successor, or an id from lying outside of its table.
Looking up a node or a function may therefore fail, and the machine treats such a failure as a
defect. That the tables of a linked program are a forest, with all ids in range, is a theorem about
linking (`Program.WellFormed`, `Program.IsTreeOf`) and not a part of the type. So the machine can be
run, and is defined, on any tables.

A function is visible in a scope if it is declared there or in a scope around it. The search goes
through at most as many scopes as there are (`Program.scopeChain`), which makes it a function by
recursion on a number even for tables whose scopes go around in a circle. A name resolves only when
exactly one visible function has it: an inner function does not hide an outer one of the same name,
it makes the name ambiguous.

Iterable types are a parameter of the program. The linked programs have one, the type of ranges.
-/

namespace TreeMachine

/-- What a statement does. A sequence is given by its first statement, if it has any. An arm is one
case of a select, and the arms of a select form a sequence. -/
inductive StmtKind
  | expr (e : ExprId)
  | block (body : Option StmtId)
  | loop (cond : ExprId) (body : Option StmtId) (testFirst : Bool)
  | forall (indices : List VarId) (iterators : List ExprId) (body : Option StmtId)
  | branch (cond : ExprId) (thenBody elseBody : Option StmtId)
  | select (selector : ExprId) (arms : Option StmtId)
  | arm (cases : List ExprId) (body : Option StmtId)
  | return (value : Option ExprId)
  | label (name : String)
  | goto (target : StmtId)
  deriving DecidableEq, Repr

/-- The name of a kind of statement, as it is shown in traces and messages. -/
def StmtKind.name : StmtKind → String
  | .expr _ => "ExprStmt"
  | .block _ => "BlockStmt"
  | .loop .. => "WhileLoopStmt"
  | .forall .. => "ForLoopStmt"
  | .branch .. => "CondStmt"
  | .select .. => "SelectStmt"
  | .arm .. => "WhenStmt"
  | .return _ => "ReturnStmt"
  | .label _ => "LabelStmt"
  | .goto _ => "GotoStmt"

/-- A statement: what it does, the next one of its sequence, the one that encloses the sequence, and
the scope in which it calls functions. -/
structure Stmt where
  kind : StmtKind
  next : Option StmtId
  parent : Option StmtId
  scope : ScopeId
  deriving DecidableEq, Repr

/-- An expression. -/
inductive Expr
  | literal (s : Scalar)
  | var (x : VarId)
  | declare (x : VarId)
  | assign (target : VarId) (value : ExprId)
  | name (name : String)
  | function (id : FnId)
  | call (callee : ExprId) (args : List ExprId)
  | choose (cond thenExpr elseExpr : ExprId)
  | closure (params : List VarId) (body : Option StmtId)
  deriving DecidableEq, Repr

/-- The name of a kind of expression, as it is shown in traces and messages. -/
def Expr.kindName : Expr → String
  | .literal _ => "LiteralExpr"
  | .var _ => "SymExpr"
  | .declare _ => "DefExpr"
  | .assign .. => "AssignExpr"
  | .name _ => "NameExpr"
  | .function _ => "FnRefExpr"
  | .call .. => "CallExpr"
  | .choose .. => "CondExpr"
  | .closure .. => "ClosureExpr"

/-- What a function runs. -/
inductive FnBody
  | code (first : Option StmtId)
  | primitive (p : Primitive)
  deriving DecidableEq, Repr

/-- A function and the scope that it is declared in. -/
structure Function where
  name : String
  params : List VarId
  body : FnBody
  scope : ScopeId
  deriving DecidableEq, Repr

/-- The number of arguments of a function. -/
def Function.arity (f : Function) : Nat :=
  match f.body with
  | .code _ => f.params.length
  | .primitive p => p.arity

/-- A scope: the functions declared in it, in order, and the scope around it. -/
structure Scope where
  parent : Option ScopeId
  functions : List FnId
  deriving DecidableEq, Repr

/-- A module: its top-level statements and the scope of its functions. -/
structure Module where
  name : String
  body : Option StmtId
  scope : ScopeId
  deriving DecidableEq, Repr

/-- A linked program. The iterables are the types of objects for which the machine answers the
messages of the iteration protocol. -/
structure Program where
  stmts : Array Stmt
  exprs : Array Expr
  vars : Array String
  functions : Array Function
  scopes : Array Scope
  modules : Array Module
  entry : Option FnId
  iterables : List (String × Iterable)

namespace Program

/-- The scope around all modules, which holds the primitives. -/
def rootScope : ScopeId := ⟨0⟩

/-- A statement. -/
def stmt? (p : Program) (id : StmtId) : Option Stmt := p.stmts[id.index]?

/-- An expression. -/
def expr? (p : Program) (id : ExprId) : Option Expr := p.exprs[id.index]?

/-- A function. -/
def function? (p : Program) (id : FnId) : Option Function := p.functions[id.index]?

/-- A scope. -/
def scope? (p : Program) (id : ScopeId) : Option Scope := p.scopes[id.index]?

/-- The name of a variable. -/
def varName (p : Program) (x : VarId) : String := (p.vars[x.index]?).getD ""

/-- The name of a function. -/
def functionName (p : Program) (id : FnId) : String :=
  match p.function? id with
  | some f => f.name
  | none => ""

/-- The statement that encloses a statement. -/
def parent? (p : Program) (id : StmtId) : Option StmtId := (p.stmt? id).bind Stmt.parent

/-! ### Finding functions -/

/-- A scope and those around it, innermost first, up to a given number. -/
def scopeChain (p : Program) (count : Nat) (scope : Option ScopeId) : List ScopeId :=
  match count, scope with
  | 0, _ | _, none => []
  | count + 1, some s => s :: p.scopeChain count ((p.scope? s).bind Scope.parent)

/-- The functions of one scope that have a name, in the order of their declaration. -/
def named (p : Program) (name : String) (scope : ScopeId) : List FnId :=
  match p.scope? scope with
  | some s => s.functions.filter fun f => (p.function? f).any fun f => f.name == name
  | none => []

/-- The functions of a name that are visible in a scope, those of inner scopes first. -/
def visible (p : Program) (scope : ScopeId) (name : String) : List FnId :=
  (p.scopeChain p.scopes.size (some scope)).flatMap (p.named name)

/-- The one function of a name that is visible in a scope. -/
def resolve (p : Program) (scope : ScopeId) (name : String) : Except Complaint FnId :=
  match p.visible scope name with
  | [f] => .ok f
  | fs => .error (.unresolved name fs.length)

/-! ### Iterable types -/

/-- The answers of the objects of a type, if the machine answers for them. -/
def iterable? (p : Program) (typeName : String) : Option Iterable :=
  p.iterables.lookup typeName

/-- The program with an iterable type more, which replaces one of the same name. -/
def withIterable (p : Program) (typeName : String) (it : Iterable) : Program :=
  { p with iterables := (typeName, it) :: p.iterables }

end Program

end TreeMachine
