import Mathlib.Data.List.Forall2
import TreeMachine.Proofs.Tree.Bodies

/-!
# The tree of a definition in the tables

A definition is found again in the tables of its program. A list of statements is chained to a
sequence: following the successors from its first statement visits the statements of the list in
order, all of them with the parent and the scope of the sequence, and ends with the last one
(`Program.SeqOf`). The first statement of a sequence is recorded in the place of the tables that
stands for the place of the list in the definition: in the enclosing statement, in a closure, in a
function (`Program.FunctionOf`) or in a module (`Program.ModuleOf`).

What it means for a program to be the tree of a definition is collected in a structure with named
fields (`Program.IsTreeOf`). Some of them compare the program with the definition, and the others
are about the tables alone: all ids are in range, every statement is in one sequence, each first
statement is recorded once, parents and scopes are shared along a sequence, arms are in selects, and
scopes end at the outermost one. The latter do not follow from the comparison, which looks only at
what it comes to.

The comparison is by recursion on the definition and goes through the tables by ids, as a debugger
would. It leaves the ids open, and so it says that the program has the shape of the definition and
not where it is. That a program has nothing besides the definition is said by the list of all its
sequences, which has to be that of the definition up to order.

What the names of variables and functions stand for is left open here.
-/

namespace TreeMachine

/-! ### The sequences of a definition -/

namespace Source

/-- A list that is chained to a sequence: statements, or the arms of a select. -/
inductive Sequence
  | stmts (ss : List Stmt)
  | arms (as : List Arm)

mutual

/-- The sequences in an expression, which are those of its closures. -/
def Expr.sequences : Expr → List Sequence
  | .scalar _ | .var _ | .declare _ | .name _ | .function _ => []
  | .assign _ value => value.sequences
  | .call callee args => callee.sequences ++ exprsSequences args
  | .choose cond thenExpr elseExpr =>
    cond.sequences ++ thenExpr.sequences ++ elseExpr.sequences
  | .closure _ body => .stmts body :: stmtsSequences body

/-- The sequences in expressions. -/
def exprsSequences : List Expr → List Sequence
  | [] => []
  | e :: es => e.sequences ++ exprsSequences es

/-- The sequences in a statement. -/
def Stmt.sequences : Stmt → List Sequence
  | .expr e => e.sequences
  | .block body => .stmts body :: stmtsSequences body
  | .loop cond body _ => cond.sequences ++ (.stmts body :: stmtsSequences body)
  | .forall _ iterators body => exprsSequences iterators ++ (.stmts body :: stmtsSequences body)
  | .branch cond thenBody elseBody =>
    cond.sequences ++ (.stmts thenBody :: stmtsSequences thenBody) ++
      (.stmts elseBody :: stmtsSequences elseBody)
  | .select selector arms => selector.sequences ++ (.arms arms :: armsSequences arms)
  | .return none | .label _ | .goto _ => []
  | .return (some value) => value.sequences

/-- The sequences in the statements of a sequence. -/
def stmtsSequences : List Stmt → List Sequence
  | [] => []
  | s :: ss => s.sequences ++ stmtsSequences ss

/-- The sequences in an arm. -/
def Arm.sequences : Arm → List Sequence
  | .mk cases body => exprsSequences cases ++ (.stmts body :: stmtsSequences body)

/-- The sequences in arms. -/
def armsSequences : List Arm → List Sequence
  | [] => []
  | a :: as => a.sequences ++ armsSequences as

end

/-- The sequences of a body: it is one itself. -/
def bodySequences (body : List Stmt) : List Sequence :=
  .stmts body :: stmtsSequences body

mutual

/-- The sequences of a function and of the functions inside it. -/
def Function.sequences : Function → List Sequence
  | .mk _ _ inner body => bodySequences body ++ functionsSequences inner

/-- The sequences of functions. -/
def functionsSequences : List Function → List Sequence
  | [] => []
  | f :: fs => f.sequences ++ functionsSequences fs

end

/-- The sequences of a module. -/
def Module.sequences (m : Module) : List Sequence :=
  bodySequences m.body ++ functionsSequences m.functions

/-- The sequences of a program. -/
def Program.sequences (d : Program) : List Sequence :=
  d.modules.flatMap Module.sequences

end Source

/-- The first statement of the body of a closure. -/
def Expr.firsts : Expr → List StmtId
  | .closure _ first => first.toList
  | _ => []

namespace Program

/-! ### The definition in the tables -/

mutual

/-- An expression of the tables is one of a definition. -/
def ExprOf (p : Program) (scope : ScopeId) : Source.Expr → ExprId → Prop
  | .scalar s, e => p.expr? e = some (.literal s)
  | .var _, e => ∃ x, p.expr? e = some (.var x)
  | .declare _, e => ∃ x, p.expr? e = some (.declare x)
  | .assign _ value, e => ∃ x v, p.expr? e = some (.assign x v) ∧ p.ExprOf scope value v
  | .name name, e => p.expr? e = some (.name name)
  | .function _, e => ∃ f, p.expr? e = some (.function f)
  | .call callee args, e =>
    ∃ c as, p.expr? e = some (.call c as) ∧ p.ExprOf scope callee c ∧ p.ExprsOf scope args as
  | .choose cond thenExpr elseExpr, e =>
    ∃ c t f, p.expr? e = some (.choose c t f) ∧ p.ExprOf scope cond c ∧
      p.ExprOf scope thenExpr t ∧ p.ExprOf scope elseExpr f
  | .closure _ body, e =>
    ∃ xs first, p.expr? e = some (.closure xs first) ∧ p.SeqOf none scope body first

/-- Expressions of the tables are those of a definition. -/
def ExprsOf (p : Program) (scope : ScopeId) : List Source.Expr → List ExprId → Prop
  | [], ids => ids = []
  | e :: es, ids => ∃ i is, ids = i :: is ∧ p.ExprOf scope e i ∧ p.ExprsOf scope es is

/-- A statement of the tables with the given successor is one of a definition. A jump goes to a
label of the name that it is written with. -/
def StmtOf (p : Program) (parent : Option StmtId) (scope : ScopeId) :
    Source.Stmt → StmtId → Option StmtId → Prop
  | .expr e, i, next =>
    ∃ x, p.stmt? i = some ⟨.expr x, next, parent, scope⟩ ∧ p.ExprOf scope e x
  | .block body, i, next =>
    ∃ first, p.stmt? i = some ⟨.block first, next, parent, scope⟩ ∧
      p.SeqOf (some i) scope body first
  | .loop cond body testLast, i, next =>
    ∃ c first, p.stmt? i = some ⟨.loop c first !testLast, next, parent, scope⟩ ∧
      p.ExprOf scope cond c ∧ p.SeqOf (some i) scope body first
  | .forall _ iterators body, i, next =>
    ∃ xs is first, p.stmt? i = some ⟨.forall xs is first, next, parent, scope⟩ ∧
      p.ExprsOf scope iterators is ∧ p.SeqOf (some i) scope body first
  | .branch cond thenBody elseBody, i, next =>
    ∃ c thenFirst elseFirst,
      p.stmt? i = some ⟨.branch c thenFirst elseFirst, next, parent, scope⟩ ∧
        p.ExprOf scope cond c ∧ p.SeqOf (some i) scope thenBody thenFirst ∧
          p.SeqOf (some i) scope elseBody elseFirst
  | .select selector arms, i, next =>
    ∃ c first, p.stmt? i = some ⟨.select c first, next, parent, scope⟩ ∧
      p.ExprOf scope selector c ∧ p.ArmsOf i scope arms first
  | .return none, i, next => p.stmt? i = some ⟨.return none, next, parent, scope⟩
  | .return (some value), i, next =>
    ∃ v, p.stmt? i = some ⟨.return (some v), next, parent, scope⟩ ∧ p.ExprOf scope value v
  | .label name, i, next => p.stmt? i = some ⟨.label name, next, parent, scope⟩
  | .goto label, i, next =>
    ∃ target s, p.stmt? i = some ⟨.goto target, next, parent, scope⟩ ∧
      p.stmt? target = some s ∧ s.kind = .label label

/-- The statements from a first one on are those of a list, in order. -/
def SeqOf (p : Program) (parent : Option StmtId) (scope : ScopeId) :
    List Source.Stmt → Option StmtId → Prop
  | [], first => first = none
  | s :: ss, first =>
    ∃ i next, first = some i ∧ p.StmtOf parent scope s i next ∧ p.SeqOf parent scope ss next

/-- An arm of the tables with the given successor is one of a definition. -/
def ArmOf (p : Program) (select : StmtId) (scope : ScopeId) :
    Source.Arm → StmtId → Option StmtId → Prop
  | .mk cases body, i, next =>
    ∃ cs first, p.stmt? i = some ⟨.arm cs first, next, some select, scope⟩ ∧
      p.ExprsOf scope cases cs ∧ p.SeqOf (some i) scope body first

/-- The arms from a first one on are those of a list, in order. -/
def ArmsOf (p : Program) (select : StmtId) (scope : ScopeId) :
    List Source.Arm → Option StmtId → Prop
  | [], first => first = none
  | a :: as, first =>
    ∃ i next, first = some i ∧ p.ArmOf select scope a i next ∧ p.ArmsOf select scope as next

end

/-- The statements from a first one on are those of a sequence of a definition. -/
def Holds (p : Program) (parent : Option StmtId) (scope : ScopeId) :
    Source.Sequence → Option StmtId → Prop
  | .stmts ss, first => p.SeqOf parent scope ss first
  | .arms as, first => ∃ select, parent = some select ∧ p.ArmsOf select scope as first

mutual

/-- A function of the tables is one of a definition. The functions inside it are declared in a scope
of its own, in which its statements are as well. -/
def FunctionOf (p : Program) (outer : ScopeId) : Source.Function → FnId → Prop
  | .mk name params inner body, id =>
    ∃ xs first scope ids, p.function? id = some ⟨name, xs, .code first, outer⟩ ∧
      xs.length = params.length ∧ p.scope? scope = some ⟨some outer, ids⟩ ∧
        p.SeqOf none scope body first ∧ p.FunctionsOf scope inner ids

/-- Functions of the tables are those of a definition. -/
def FunctionsOf (p : Program) (scope : ScopeId) : List Source.Function → List FnId → Prop
  | [], ids => ids = []
  | f :: fs, ids =>
    ∃ id rest, ids = id :: rest ∧ p.FunctionOf scope f id ∧ p.FunctionsOf scope fs rest

end

/-- A module of the tables is one of a definition. -/
def ModuleOf (p : Program) (m : Source.Module) (m' : Module) : Prop :=
  ∃ ids, m'.name = m.name ∧ p.scope? m'.scope = some ⟨some rootScope, ids⟩ ∧
    p.SeqOf none m'.scope m.body m'.body ∧ p.FunctionsOf m'.scope m.functions ids

/-! ### Following successors -/

/-- The statements that are visited by following the successors from a first one to the end. -/
inductive Visits (p : Program) : Option StmtId → List StmtId → Prop
  | nil : Visits p none []
  | cons {i : StmtId} {s : Stmt} {ids : List StmtId} (h : p.stmt? i = some s)
      (rest : Visits p s.next ids) : Visits p (some i) (i :: ids)

/-- The first statements of bodies that functions record. -/
def functionFirsts (p : Program) : List StmtId :=
  p.functions.toList.flatMap fun f => f.body.first.toList

/-- The first statements of bodies that modules record. -/
def moduleFirsts (p : Program) : List StmtId :=
  p.modules.toList.flatMap fun m => m.body.toList

/-- The first statements that are recorded as those of bodies: by closures, functions and
modules. -/
def bodyFirsts (p : Program) : List StmtId :=
  p.exprs.toList.flatMap Expr.firsts ++ (p.functionFirsts ++ p.moduleFirsts)

/-- The first statements that are recorded as those of sequences: by statements, or as those of
bodies. -/
def firsts (p : Program) : List StmtId :=
  p.stmts.toList.flatMap (fun s => s.kind.children) ++ p.bodyFirsts

/-! ### Ids -/

/-- The statements that a statement refers to. -/
def stmtLinks (s : Stmt) : List StmtId :=
  s.next.toList ++ s.parent.toList ++ s.kind.children ++
    match s.kind with
    | .goto target => [target]
    | _ => []

/-- **Every id is in range**: whatever a table refers to is in its table. -/
structure InRange (p : Program) : Prop where
  stmts : ∀ i s, p.stmt? i = some s → (∀ t ∈ stmtLinks s, t.index < p.stmts.size) ∧
    (∀ e ∈ s.kind.exprs, e.index < p.exprs.size) ∧ (∀ x ∈ s.kind.vars, x.index < p.vars.size) ∧
      s.scope.index < p.scopes.size
  exprs : ∀ e x, p.expr? e = some x → (∀ t ∈ x.firsts, t.index < p.stmts.size) ∧
    (∀ c ∈ x.parts, c.index < p.exprs.size) ∧ (∀ y ∈ x.vars, y.index < p.vars.size) ∧
      ∀ f, x = .function f → f.index < p.functions.size
  functions : ∀ id f, p.function? id = some f → (∀ t ∈ f.body.first, t.index < p.stmts.size) ∧
    (∀ x ∈ f.params, x.index < p.vars.size) ∧ f.scope.index < p.scopes.size
  scopes : ∀ i s, p.scope? i = some s → (∀ q ∈ s.parent, q.index < p.scopes.size) ∧
    ∀ f ∈ s.functions, f.index < p.functions.size
  modules : ∀ m ∈ p.modules, (∀ t ∈ m.body, t.index < p.stmts.size) ∧
    m.scope.index < p.scopes.size
  entry : ∀ f ∈ p.entry, f.index < p.functions.size

/-! ### Trees -/

/-- Going from a scope outwards ends at the root scope. -/
inductive WithinRoot (p : Program) : ScopeId → Prop
  | root {s : Scope} (h : p.scope? rootScope = some s) (hs : s.parent = none) :
      WithinRoot p rootScope
  | inside {i q : ScopeId} {s : Scope} (h : p.scope? i = some s) (hs : s.parent = some q)
      (hq : WithinRoot p q) : WithinRoot p i

/-- **A program is the tree of a definition.** Its modules and the sequences in it are those of the
definition. Every statement belongs to one sequence. The first statement of a sequence is recorded
in one place, which is in its parent unless it begins a body, and the statements of a sequence have
one parent and one scope. Parents, arms, jumps and scopes are where they belong. -/
structure IsTreeOf (p : Program) (d : Source.Program) : Prop where
  inRange : p.InRange
  modules : List.Forall₂ p.ModuleOf d.modules p.modules.toList
  sequences : ∃ firsts, List.Forall₂ (fun q first => ∃ parent scope, p.Holds parent scope q first)
    d.sequences firsts ∧ (firsts.filterMap id).Perm p.firsts
  recorded : p.firsts.Nodup
  belongs : ∀ i, i.index < p.stmts.size →
    ∃! first, first ∈ p.firsts ∧ ∃ ids, p.Visits (some first) ids ∧ i ∈ ids
  visits : ∀ first ∈ p.firsts, ∃ ids parent scope, p.Visits (some first) ids ∧ ids.Nodup ∧
    ∀ i ∈ ids, ∃ s, p.stmt? i = some s ∧ s.parent = parent ∧ s.scope = scope
  inside : ∀ i s, p.stmt? i = some s → ∀ first ∈ s.kind.children, p.parent? first = some i
  tops : ∀ first ∈ p.bodyFirsts, p.parent? first = none
  parents : ∀ i q, p.parent? i = some q → q.index < i.index
  arms : ∀ i s, p.stmt? i = some s → s.kind.isArm = true →
    ∃ q s', s.parent = some q ∧ p.stmt? q = some s' ∧ s'.kind.isSelect = true
  selects : ∀ i s selector first ids, p.stmt? i = some s → s.kind = .select selector first →
    p.Visits first ids → ∀ j ∈ ids, ∃ s', p.stmt? j = some s' ∧ s'.kind.isArm = true
  gotos : ∀ i s target, p.stmt? i = some s → s.kind = .goto target →
    p.GotoFits i target ∧ ∃ first ∈ p.bodyFirsts, p.InBody first i ∧ p.InBody first target
  scopes : ∀ i, i.index < p.scopes.size → p.WithinRoot i

end Program

end TreeMachine
