import TreeMachine.Linking

/-!
# Where linking puts a definition

A `Mark` is a moment of linking: the sizes of the tables and the variables in scope. Linking an
expression, a statement or a sequence leads from one mark to another, and the nodes between the two
are the nodes of the definition. `ExprAt`, `StmtAt` and `SeqAt` say which nodes of a program these
are, by recursion on the definition and without a word about the order in which the tables were
written: a statement is found with the kind, the successor, the parent and the scope that it has in
the end.

These relations are functions of the two marks and the tables, and the linker does not occur in
them. They fix every id: the expression of a call comes right after those of its arguments, the
statement of a loop right before its condition, and variables are numbered as they are declared. The
names in scope are part of a mark, so that a reference to a variable is tied to the id that the name
has at that point.

What they leave open are the targets of jumps, which are known only when a body is complete, and the
functions that references go to, of which only the name is fixed here. Both are added for whole
bodies (`Program.BodyAt`).
-/

namespace TreeMachine

/-- A moment of linking: the sizes of the tables, and the frames of variables in scope. -/
structure Mark where
  stmts : Nat
  exprs : Nat
  vars : Nat
  frames : List (List (String × VarId))

namespace Mark

/-- The id of the next statement. -/
def stmtId (m : Mark) : StmtId := ⟨m.stmts⟩

/-- The id of the next expression. -/
def exprId (m : Mark) : ExprId := ⟨m.exprs⟩

/-- The id of the next variable. -/
def varId (m : Mark) : VarId := ⟨m.vars⟩

/-- After one statement more. -/
def addStmt (m : Mark) : Mark := { m with stmts := m.stmts + 1 }

/-- After one expression more. -/
def addExpr (m : Mark) : Mark := { m with exprs := m.exprs + 1 }

/-- After one variable more, which is declared in the innermost frame. -/
def declare (m : Mark) (name : String) : Mark :=
  { m with
    vars := m.vars + 1
    frames := match m.frames with
      | [] => []
      | frame :: frames => ((name, m.varId) :: frame) :: frames }

/-- After variables that are declared in order, and their ids. -/
def declareAll (m : Mark) : List String → Mark × List VarId
  | [] => (m, [])
  | name :: names =>
    let rest := (m.declare name).declareAll names
    (rest.1, m.varId :: rest.2)

/-- In a frame of variables more. -/
def enter (m : Mark) (frame : List (String × VarId)) : Mark :=
  { m with frames := frame :: m.frames }

/-- Back in the frames of an earlier mark. -/
def leave (m outer : Mark) : Mark := { m with frames := outer.frames }

/-- The variable that a name refers to. -/
def lookup? (m : Mark) (name : String) : Option VarId :=
  m.frames.findSome? fun frame => frame.lookup name

end Mark

/-- The moment that linking is at. -/
def Linker.mark (l : Linker) : Mark :=
  ⟨l.program.stmts.size, l.program.exprs.size, l.program.vars.size, l.frames⟩

namespace Program

/-- An expression is the one node from a mark to the next. -/
def ExprIs (p : Program) (x : Expr) (m m' : Mark) (e : ExprId) : Prop :=
  e = m.exprId ∧ m' = m.addExpr ∧ p.expr? e = some x

/-- The statement at a mark is of a kind, with a successor, a parent and a scope. -/
def StmtIs (p : Program) (kind : StmtKind) (next parent : Option StmtId) (scope : ScopeId)
    (m : Mark) : Prop :=
  p.stmt? m.stmtId = some ⟨kind, next, parent, scope⟩

mutual

/-- The nodes between two marks are those of an expression, and the given one is its own. -/
def ExprAt (p : Program) (scope : ScopeId) : Source.Expr → Mark → Mark → ExprId → Prop
  | .scalar s, m, m', e => p.ExprIs (.literal s) m m' e
  | .var name, m, m', e => ∃ x, m.lookup? name = some x ∧ p.ExprIs (.var x) m m' e
  | .declare name, m, m', e => p.ExprIs (.declare m.varId) (m.declare name) m' e
  | .assign name value, m, m', e =>
    ∃ x m₁ v, m.lookup? name = some x ∧ p.ExprAt scope value m m₁ v ∧
      p.ExprIs (.assign x v) m₁ m' e
  | .name name, m, m', e => p.ExprIs (.name name) m m' e
  | .function name, m, m', e =>
    ∃ f, (∃ g, p.function? f = some g ∧ g.name = name) ∧ p.ExprIs (.function f) m m' e
  | .call callee args, m, m', e =>
    ∃ m₁ m₂ c as, p.ExprAt scope callee m m₁ c ∧ p.ExprsAt scope args m₁ m₂ as ∧
      p.ExprIs (.call c as) m₂ m' e
  | .choose cond thenExpr elseExpr, m, m', e =>
    ∃ m₁ m₂ m₃ c t f, p.ExprAt scope cond m m₁ c ∧ p.ExprAt scope thenExpr m₁ m₂ t ∧
      p.ExprAt scope elseExpr m₂ m₃ f ∧ p.ExprIs (.choose c t f) m₃ m' e
  | .closure params body, m, m', e =>
    ∃ m₁ first,
      p.SeqAt none scope body (((m.enter []).declareAll params).1.enter []) m₁ first ∧
      p.ExprIs (.closure ((m.enter []).declareAll params).2 first) (m₁.leave m) m' e

/-- The nodes between two marks are those of expressions, and the given ones are their own. -/
def ExprsAt (p : Program) (scope : ScopeId) :
    List Source.Expr → Mark → Mark → List ExprId → Prop
  | [], m, m', ids => m' = m ∧ ids = []
  | e :: es, m, m', ids =>
    ∃ m₁ i is, p.ExprAt scope e m m₁ i ∧ p.ExprsAt scope es m₁ m' is ∧ ids = i :: is

/-- The nodes between two marks are those of a statement with the given successor. -/
def StmtAt (p : Program) (parent : Option StmtId) (scope : ScopeId) :
    Source.Stmt → Option StmtId → Mark → Mark → Prop
  | .expr e, next, m, m' =>
    ∃ x, p.ExprAt scope e m.addStmt m' x ∧ p.StmtIs (.expr x) next parent scope m
  | .block body, next, m, m' =>
    ∃ m₁ first, p.SeqAt (some m.stmtId) scope body (m.addStmt.enter []) m₁ first ∧
      m' = m₁.leave m ∧ p.StmtIs (.block first) next parent scope m
  | .loop cond body testLast, next, m, m' =>
    ∃ m₁ m₂ c first, p.ExprAt scope cond m.addStmt m₁ c ∧
      p.SeqAt (some m.stmtId) scope body (m₁.enter []) m₂ first ∧
      m' = m₂.leave m₁ ∧ p.StmtIs (.loop c first !testLast) next parent scope m
  | .forall indices iterators body, next, m, m' =>
    ∃ m₁ m₂ is first, p.ExprsAt scope iterators m.addStmt m₁ is ∧
      p.SeqAt (some m.stmtId) scope body (((m₁.enter []).declareAll indices).1.enter []) m₂
        first ∧
      m' = m₂.leave m₁ ∧
      p.StmtIs (.forall ((m₁.enter []).declareAll indices).2 is first) next parent scope m
  | .branch cond thenBody elseBody, next, m, m' =>
    ∃ m₁ m₂ m₃ c thenFirst elseFirst, p.ExprAt scope cond m.addStmt m₁ c ∧
      p.SeqAt (some m.stmtId) scope thenBody (m₁.enter []) m₂ thenFirst ∧
      p.SeqAt (some m.stmtId) scope elseBody ((m₂.leave m₁).enter []) m₃ elseFirst ∧
      m' = m₃.leave m₁ ∧ p.StmtIs (.branch c thenFirst elseFirst) next parent scope m
  | .select selector arms, next, m, m' =>
    ∃ m₁ c first, p.ExprAt scope selector m.addStmt m₁ c ∧
      p.ArmsAt m.stmtId scope arms m₁ m' first ∧
      p.StmtIs (.select c first) next parent scope m
  | .return none, next, m, m' => m' = m.addStmt ∧ p.StmtIs (.return none) next parent scope m
  | .return (some value), next, m, m' =>
    ∃ v, p.ExprAt scope value m.addStmt m' v ∧ p.StmtIs (.return (some v)) next parent scope m
  | .label name, next, m, m' => m' = m.addStmt ∧ p.StmtIs (.label name) next parent scope m
  | .goto _, next, m, m' =>
    ∃ target, m' = m.addStmt ∧ p.StmtIs (.goto target) next parent scope m

/-- The nodes between two marks are those of a sequence, whose first statement is given. -/
def SeqAt (p : Program) (parent : Option StmtId) (scope : ScopeId) :
    List Source.Stmt → Mark → Mark → Option StmtId → Prop
  | [], m, m', first => m' = m ∧ first = none
  | s :: ss, m, m', first =>
    ∃ m₁ next, p.StmtAt parent scope s next m m₁ ∧ p.SeqAt parent scope ss m₁ m' next ∧
      first = some m.stmtId

/-- The nodes between two marks are those of an arm with the given successor. -/
def ArmAt (p : Program) (select : StmtId) (scope : ScopeId) :
    Source.Arm → Option StmtId → Mark → Mark → Prop
  | .mk cases body, next, m, m' =>
    ∃ m₁ m₂ cs first, p.ExprsAt scope cases m.addStmt m₁ cs ∧
      p.SeqAt (some m.stmtId) scope body (m₁.enter []) m₂ first ∧
      m' = m₂.leave m₁ ∧ p.StmtIs (.arm cs first) next (some select) scope m

/-- The nodes between two marks are those of the arms of a select, of which the first is given. -/
def ArmsAt (p : Program) (select : StmtId) (scope : ScopeId) :
    List Source.Arm → Mark → Mark → Option StmtId → Prop
  | [], m, m', first => m' = m ∧ first = none
  | a :: as, m, m', first =>
    ∃ m₁ next, p.ArmAt select scope a next m m₁ ∧ p.ArmsAt select scope as m₁ m' next ∧
      first = some m.stmtId

end

end Program

end TreeMachine
