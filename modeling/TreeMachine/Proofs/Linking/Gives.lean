import TreeMachine.Proofs.Linking.Placement

/-!
# Results of linking steps

`Link.Gives x l a l'` says that a step of linking succeeds from one state of the linker with a
result and another state. Every way to build a step has its equation: a composed step gives what its
parts give one after the other (`Link.gives_bind`), and each step on the tables, on the variables or
on the labels is described by its effect. What linking a node goes through is said once, in a lemma
for each kind of expression and of statement, and what a function or a module goes through in
`Link.gives_function` and `Link.gives_module`.

The linker is a state monad with failure, written in `do` notation. Opening it in every proof would
mean to unfold the monad each time, so this module is the only one that does. Its lemmas for nodes
have existentials for the intermediate states, and equations for the states before and after a
change to the tables, in terms of a few functions: `Link.pushExpr`, `Link.pushStmt`, `Link.putKind`
and so on. Everything about these functions is proved from their definitions, and everything about
linking from the lemmas for nodes, by induction on the definition.

Failure is left out: `Link.Gives` is about steps that succeed. Which steps fail, and with what, is
the subject of `Link.Checks`, for which the equations here supply the states in between.
-/

namespace TreeMachine

namespace Link

variable {α β : Type} {l l' : Linker} {a : α} {b : β}

/-- A step of linking succeeds, with the given result. -/
def Gives (x : Link α) (l : Linker) (a : α) (l' : Linker) : Prop :=
  x l = .ok (a, l')

@[simp]
theorem gives_pure {b : α} : (pure b : Link α).Gives l a l' ↔ a = b ∧ l' = l := by
  have hrun : (pure b : Link α) l = .ok (b, l) := rfl
  rw [Gives, hrun, Except.ok.injEq, Prod.mk.injEq]
  exact and_congr eq_comm eq_comm

@[simp]
theorem gives_bind {x : Link α} {f : α → Link β} :
    (x >>= f).Gives l b l' ↔ ∃ a l₁, x.Gives l a l₁ ∧ (f a).Gives l₁ b l' := by
  simp only [Gives, bind, StateT.bind, Except.bind]
  constructor
  · intro h
    cases hx : x l with
    | error e => simp [hx] at h
    | ok r => exact ⟨r.1, r.2, rfl, by simpa [hx] using h⟩
  · rintro ⟨a, l₁, hx, hf⟩
    rw [hx]
    exact hf

@[simp]
theorem gives_get {s : Linker} : (get : Link Linker).Gives l s l' ↔ s = l ∧ l' = l :=
  gives_pure

@[simp]
theorem gives_modify {f : Linker → Linker} {u : Unit} :
    (modify f : Link Unit).Gives l u l' ↔ l' = f l := by
  have hrun : (modify f : Link Unit) l = .ok ((), f l) := rfl
  rw [Gives, hrun, Except.ok.injEq, Prod.mk.injEq]
  exact ⟨fun h => h.2.symm, fun h => ⟨rfl, h.symm⟩⟩

@[simp]
theorem not_gives_throw {e : LinkError} : ¬(throw e : Link α).Gives l a l' := by
  simp [Gives, throw, throwThe, MonadExceptOf.throw, StateT.lift, bind, Except.bind]

@[simp]
theorem gives_modifyProgram {f : Program → Program} {u : Unit} :
    (modifyProgram f).Gives l u l' ↔ l' = { l with program := f l.program } :=
  gives_modify

/-! ### Tables -/

/-- The state of the linker with an expression more. -/
def pushExpr (l : Linker) (x : Expr) : Linker :=
  { l with program := { l.program with exprs := l.program.exprs.push x } }

/-- The state of the linker with a statement more, of which only the parent and the scope are
known. -/
def pushStmt (l : Linker) (parent : Option StmtId) (scope : ScopeId) : Linker :=
  { l with
    program :=
      { l.program with stmts := l.program.stmts.push ⟨.block none, none, parent, scope⟩ } }

/-- The state of the linker with a variable more. -/
def pushVar (l : Linker) (name : String) : Linker :=
  { l with program := { l.program with vars := l.program.vars.push name } }

/-- The state of the linker with a scope more. -/
def pushScope (l : Linker) (parent : ScopeId) : Linker :=
  { l with program := { l.program with scopes := l.program.scopes.push ⟨some parent, []⟩ } }

/-- The state of the linker with the kind of a statement set. -/
def putKind (l : Linker) (id : StmtId) (kind : StmtKind) : Linker :=
  { l with
    program := { l.program with
      stmts := l.program.stmts.modify id.index fun s => { s with kind := kind } } }

/-- The state of the linker with the successor of a statement set. -/
def putNext (l : Linker) (id : StmtId) (next : Option StmtId) : Linker :=
  { l with
    program := { l.program with
      stmts := l.program.stmts.modify id.index fun s => { s with next := next } } }

/-- The state of the linker with the first statement of a function set. -/
def putBody (l : Linker) (id : FnId) (first : Option StmtId) : Linker :=
  { l with
    program := { l.program with
      functions := l.program.functions.modify id.index fun f => { f with body := .code first } } }

/-- The state of the linker with a module more. -/
def pushModule (l : Linker) (m : Module) : Linker :=
  { l with program := { l.program with modules := l.program.modules.push m } }

/-- The state of the linker with a function more, which is declared in its scope. -/
def pushFunction (l : Linker) (f : Function) : Linker :=
  { l with
    program := { l.program with
      functions := l.program.functions.push f
      scopes := l.program.scopes.modify f.scope.index fun s =>
        { s with functions := s.functions ++ [⟨l.program.functions.size⟩] } } }

/-- An id is read off the tables before they are changed. -/
theorem gives_reserve (id : Linker → α) (change : α → Program → Program) :
    Gives (do
      let i := id (← get)
      modifyProgram (change i)
      return i) l a l' ↔ a = id l ∧ l' = { l with program := change (id l) l.program } := by
  simp only [gives_bind, gives_get, gives_modifyProgram, gives_pure]
  constructor
  · rintro ⟨_, _, ⟨rfl, rfl⟩, _, _, rfl, rfl, rfl⟩
    exact ⟨rfl, rfl⟩
  · rintro ⟨rfl, rfl⟩
    exact ⟨_, _, ⟨rfl, rfl⟩, (), _, rfl, rfl, rfl⟩

@[simp]
theorem gives_addExpr {x : Expr} {e : ExprId} :
    (addExpr x).Gives l e l' ↔ e = l.mark.exprId ∧ l' = pushExpr l x :=
  gives_reserve (fun l => l.mark.exprId) fun _ p => { p with exprs := p.exprs.push x }

@[simp]
theorem gives_addStmt {parent : Option StmtId} {scope : ScopeId} {i : StmtId} :
    (addStmt parent scope).Gives l i l' ↔ i = l.mark.stmtId ∧ l' = pushStmt l parent scope :=
  gives_reserve (fun l => l.mark.stmtId) fun _ p =>
    { p with stmts := p.stmts.push ⟨.block none, none, parent, scope⟩ }

@[simp]
theorem gives_addVar {name : String} {x : VarId} :
    (addVar name).Gives l x l' ↔ x = l.mark.varId ∧ l' = pushVar l name :=
  gives_reserve (fun l => l.mark.varId) fun _ p => { p with vars := p.vars.push name }

@[simp]
theorem gives_addScope {parent : ScopeId} {s : ScopeId} :
    (addScope parent).Gives l s l' ↔ s = ⟨l.program.scopes.size⟩ ∧ l' = pushScope l parent :=
  gives_reserve (fun l => ScopeId.mk l.program.scopes.size) fun _ p =>
    { p with scopes := p.scopes.push ⟨some parent, []⟩ }

@[simp]
theorem gives_addFunction {f : Function} {id : FnId} :
    (addFunction f).Gives l id l' ↔
      id = ⟨l.program.functions.size⟩ ∧ l' = pushFunction l f :=
  gives_reserve (fun l => FnId.mk l.program.functions.size) fun id p =>
    { p with
      functions := p.functions.push f
      scopes := p.scopes.modify f.scope.index fun s =>
        { s with functions := s.functions ++ [id] } }

@[simp]
theorem gives_setKind {id : StmtId} {kind : StmtKind} {u : Unit} :
    (setKind id kind).Gives l u l' ↔ l' = putKind l id kind :=
  gives_modifyProgram

@[simp]
theorem gives_setNext {id : StmtId} {next : Option StmtId} {u : Unit} :
    (setNext id next).Gives l u l' ↔ l' = putNext l id next :=
  gives_modifyProgram

@[simp]
theorem gives_setBody {id : FnId} {first : Option StmtId} {u : Unit} :
    (setBody id first).Gives l u l' ↔ l' = putBody l id first :=
  gives_modifyProgram

/-! ### Variables -/

/-- The state of the linker with a variable more, which is declared in the innermost frame. -/
def pushLocal (l : Linker) (name : String) : Linker :=
  { pushVar l name with frames := (l.mark.declare name).frames }

@[simp]
theorem gives_declare {name : String} {x : VarId} :
    (declare name).Gives l x l' ↔ x = l.mark.varId ∧ l' = pushLocal l name := by
  simp only [declare, gives_bind, gives_addVar, gives_modify, gives_pure]
  constructor
  · rintro ⟨_, _, ⟨rfl, rfl⟩, _, _, rfl, rfl, rfl⟩
    exact ⟨rfl, rfl⟩
  · rintro ⟨rfl, rfl⟩
    exact ⟨_, _, ⟨rfl, rfl⟩, (), _, rfl, rfl, rfl⟩

@[simp]
theorem gives_lookup {name : String} {x : VarId} :
    (lookup name).Gives l x l' ↔ l.mark.lookup? name = some x ∧ l' = l := by
  simp only [lookup, gives_bind, gives_get]
  constructor
  · rintro ⟨_, _, ⟨rfl, rfl⟩, h⟩
    split at h
    · rename_i y hy
      obtain ⟨rfl, rfl⟩ := gives_pure.1 h
      exact ⟨hy, rfl⟩
    · exact absurd h not_gives_throw
  · rintro ⟨h, rfl⟩
    have h' : (l'.frames.findSome? fun frame => frame.lookup name) = some x := h
    refine ⟨_, _, ⟨rfl, rfl⟩, ?_⟩
    rw [h']
    exact gives_pure.2 ⟨rfl, rfl⟩

/-- A step in a frame of variables more. -/
theorem gives_withFrame {frame : List (String × VarId)} {x : Link α} :
    (withFrame frame x).Gives l a l' ↔
      ∃ l₁, x.Gives { l with frames := frame :: l.frames } a l₁ ∧
        l' = { l₁ with frames := l.frames } := by
  simp only [withFrame, gives_bind, gives_get, gives_modify, gives_pure]
  constructor
  · rintro ⟨_, _, ⟨rfl, rfl⟩, _, _, rfl, a, l₁, hx, _, _, rfl, rfl, rfl⟩
    exact ⟨l₁, hx, rfl⟩
  · rintro ⟨l₁, hx, rfl⟩
    exact ⟨_, _, ⟨rfl, rfl⟩, (), _, rfl, a, l₁, hx, (), _, rfl, rfl, rfl⟩

/-! ### Labels -/

/-- A label is declared only when there is none of its name. -/
theorem gives_declareLabel {name : String} {id : StmtId} {u : Unit} :
    (declareLabel name id).Gives l u l' ↔
      (l.labels.lookup name).isSome = false ∧ l' = { l with labels := (name, id) :: l.labels } := by
  simp only [declareLabel, gives_bind, gives_get]
  constructor
  · rintro ⟨_, _, ⟨rfl, rfl⟩, h⟩
    split at h
    · obtain ⟨_, _, hthrow, -⟩ := gives_bind.1 h
      exact absurd hthrow not_gives_throw
    · rename_i hn
      exact ⟨eq_false_of_ne_true hn, gives_modify.1 h⟩
  · rintro ⟨hn, rfl⟩
    refine ⟨_, _, ⟨rfl, rfl⟩, ?_⟩
    rw [hn]
    exact gives_modify.2 rfl

@[simp]
theorem gives_recordJump {id : StmtId} {label : String} {u : Unit} :
    (recordJump id label).Gives l u l' ↔ l' = { l with jumps := (id, label) :: l.jumps } :=
  gives_modify

/-! ### Expressions

What linking an expression goes through is said once for each kind: its parts are linked in order,
and it is added last. The step is a composed one by definition, so `Link.gives_bind` opens it. -/

variable {scope : ScopeId} {e : ExprId}

theorem gives_var {name : String} (h : (expr scope (.var name)).Gives l e l') :
    ∃ x, l.mark.lookup? name = some x ∧ e = l.mark.exprId ∧ l' = pushExpr l (.var x) := by
  replace h := gives_bind.1 h
  simp only [gives_lookup, gives_addExpr] at h
  obtain ⟨x, _, ⟨hx, rfl⟩, he, hl'⟩ := h
  exact ⟨x, hx, he, hl'⟩

theorem gives_declaration {name : String} (h : (expr scope (.declare name)).Gives l e l') :
    e = (pushLocal l name).mark.exprId ∧
      l' = pushExpr (pushLocal l name) (.declare l.mark.varId) := by
  replace h := gives_bind.1 h
  simp only [gives_declare, gives_addExpr] at h
  obtain ⟨_, _, ⟨rfl, rfl⟩, he, hl'⟩ := h
  exact ⟨he, hl'⟩

theorem gives_assign {name : String} {value : Source.Expr}
    (h : (expr scope (.assign name value)).Gives l e l') :
    ∃ x v l₁, l.mark.lookup? name = some x ∧ (expr scope value).Gives l v l₁ ∧
      e = l₁.mark.exprId ∧ l' = pushExpr l₁ (.assign x v) := by
  replace h := gives_bind.1 h
  simp only [gives_bind, gives_lookup, gives_addExpr] at h
  obtain ⟨x, _, ⟨hx, rfl⟩, v, l₁, hv, he, hl'⟩ := h
  exact ⟨x, v, l₁, hx, hv, he, hl'⟩

/-- A reference goes to the only function of the name that is visible. -/
theorem gives_reference {name : String} (h : (expr scope (.function name)).Gives l e l') :
    ∃ f, l.program.visible scope name = [f] ∧ e = l.mark.exprId ∧
      l' = pushExpr l (.function f) := by
  replace h := gives_bind.1 h
  simp only [gives_get] at h
  obtain ⟨_, _, ⟨rfl, rfl⟩, h⟩ := h
  split at h
  · rename_i f hf
    exact ⟨f, hf, gives_addExpr.1 h⟩
  · exact absurd h not_gives_throw

theorem gives_call {callee : Source.Expr} {args : List Source.Expr}
    (h : (expr scope (.call callee args)).Gives l e l') :
    ∃ c l₁ as l₂, (expr scope callee).Gives l c l₁ ∧ (exprs scope args).Gives l₁ as l₂ ∧
      e = l₂.mark.exprId ∧ l' = pushExpr l₂ (.call c as) := by
  replace h := gives_bind.1 h
  simp only [gives_bind, gives_addExpr] at h
  obtain ⟨c, l₁, hc, as, l₂, has, he, hl'⟩ := h
  exact ⟨c, l₁, as, l₂, hc, has, he, hl'⟩

theorem gives_choose {cond thenExpr elseExpr : Source.Expr}
    (h : (expr scope (.choose cond thenExpr elseExpr)).Gives l e l') :
    ∃ c l₁ t l₂ f l₃, (expr scope cond).Gives l c l₁ ∧ (expr scope thenExpr).Gives l₁ t l₂ ∧
      (expr scope elseExpr).Gives l₂ f l₃ ∧ e = l₃.mark.exprId ∧
      l' = pushExpr l₃ (.choose c t f) := by
  replace h := gives_bind.1 h
  simp only [gives_bind, gives_addExpr] at h
  obtain ⟨c, l₁, hc, t, l₂, ht, f, l₃, hf, he, hl'⟩ := h
  exact ⟨c, l₁, t, l₂, f, l₃, hc, ht, hf, he, hl'⟩

/-- The body of a closure is linked in the frame of its parameters. -/
theorem gives_closure {params : List String} {ss : List Source.Stmt}
    (h : (expr scope (.closure params ss)).Gives l e l') :
    ∃ ids l₁ first l₂, (params.mapM declare).Gives { l with frames := [] :: l.frames } ids l₁ ∧
      (body scope ss).Gives l₁ first l₂ ∧ e = { l₂ with frames := l.frames }.mark.exprId ∧
      l' = pushExpr { l₂ with frames := l.frames } (.closure ids first) := by
  replace h := gives_bind.1 h
  simp only [gives_bind, gives_withFrame, gives_pure, gives_addExpr] at h
  obtain ⟨_, _, ⟨l₂, ⟨ids, l₁, hids, first, _, hbody, rfl, rfl⟩, rfl⟩, he, hl'⟩ := h
  exact ⟨ids, l₁, first, _, hids, hbody, he, hl'⟩

theorem gives_exprs_cons {src : Source.Expr} {es : List Source.Expr} {ids : List ExprId}
    (h : (exprs scope (src :: es)).Gives l ids l') :
    ∃ i l₁ is, (expr scope src).Gives l i l₁ ∧ (exprs scope es).Gives l₁ is l' ∧
      ids = i :: is := by
  replace h := gives_bind.1 h
  simp only [gives_bind, gives_pure] at h
  obtain ⟨i, l₁, hi, is, _, his, hids, rfl⟩ := h
  exact ⟨i, l₁, is, hi, his, hids⟩

/-! ### Statements

A statement is added before its parts are linked, in frames of their own if they are sequences, and
its kind is set last. -/

variable {parent : Option StmtId} {i : StmtId} {first : Option StmtId}

theorem gives_exprStmt {src : Source.Expr} (h : (stmt scope parent (.expr src)).Gives l i l') :
    ∃ x l₁, i = l.mark.stmtId ∧ (expr scope src).Gives (pushStmt l parent scope) x l₁ ∧
      l' = putKind l₁ l.mark.stmtId (.expr x) := by
  replace h := gives_bind.1 h
  simp only [gives_bind, gives_addStmt, gives_setKind, gives_pure] at h
  obtain ⟨_, _, ⟨rfl, rfl⟩, x, l₁, hx, _, _, rfl, hi, hl'⟩ := h
  exact ⟨x, l₁, hi, hx, hl'⟩

theorem gives_block {ss : List Source.Stmt} (h : (stmt scope parent (.block ss)).Gives l i l') :
    ∃ first l₁, i = l.mark.stmtId ∧
      (stmts scope (some l.mark.stmtId) ss).Gives
        { pushStmt l parent scope with frames := [] :: l.frames } first l₁ ∧
      l' = putKind { l₁ with frames := l.frames } l.mark.stmtId (.block first) := by
  replace h := gives_bind.1 h
  simp only [gives_bind, gives_addStmt, gives_withFrame, gives_setKind, gives_pure] at h
  obtain ⟨_, _, ⟨rfl, rfl⟩, first, _, ⟨l₁, hbody, rfl⟩, _, _, rfl, hi, hl'⟩ := h
  exact ⟨first, l₁, hi, hbody, hl'⟩

theorem gives_loop {cond : Source.Expr} {ss : List Source.Stmt} {testLast : Bool}
    (h : (stmt scope parent (.loop cond ss testLast)).Gives l i l') :
    ∃ c l₁ first l₂, i = l.mark.stmtId ∧ (expr scope cond).Gives (pushStmt l parent scope) c l₁ ∧
      (stmts scope (some l.mark.stmtId) ss).Gives { l₁ with frames := [] :: l₁.frames } first l₂ ∧
      l' = putKind { l₂ with frames := l₁.frames } l.mark.stmtId (.loop c first !testLast) := by
  replace h := gives_bind.1 h
  simp only [gives_bind, gives_addStmt, gives_withFrame, gives_setKind, gives_pure] at h
  obtain ⟨_, _, ⟨rfl, rfl⟩, c, l₁, hc, first, _, ⟨l₂, hbody, rfl⟩, _, _, rfl, hi, hl'⟩ := h
  exact ⟨c, l₁, first, l₂, hi, hc, hbody, hl'⟩

/-- The body of a loop over iterators is linked in the frame of its indices. -/
theorem gives_forall {indices : List String} {iterators : List Source.Expr}
    {ss : List Source.Stmt} (h : (stmt scope parent (.forall indices iterators ss)).Gives l i l') :
    ∃ is l₁ xs l₂ first l₃, i = l.mark.stmtId ∧
      (exprs scope iterators).Gives (pushStmt l parent scope) is l₁ ∧
      (indices.mapM declare).Gives { l₁ with frames := [] :: l₁.frames } xs l₂ ∧
      (stmts scope (some l.mark.stmtId) ss).Gives { l₂ with frames := [] :: l₂.frames } first l₃ ∧
      l' = putKind { l₃ with frames := l₁.frames } l.mark.stmtId (.forall xs is first) := by
  replace h := gives_bind.1 h
  simp only [gives_bind, gives_addStmt, gives_withFrame, gives_setKind, gives_pure] at h
  obtain ⟨_, _, ⟨rfl, rfl⟩, is, l₁, his, _, _, ⟨_, ⟨xs, l₂, hxs, first, _, ⟨l₃, hbody, rfl⟩, rfl,
    rfl⟩, rfl⟩, _, _, rfl, hi, hl'⟩ := h
  exact ⟨is, l₁, xs, l₂, first, l₃, hi, his, hxs, hbody, hl'⟩

theorem gives_branch {cond : Source.Expr} {thenBody elseBody : List Source.Stmt}
    (h : (stmt scope parent (.branch cond thenBody elseBody)).Gives l i l') :
    ∃ c l₁ t l₂ f l₃, i = l.mark.stmtId ∧ (expr scope cond).Gives (pushStmt l parent scope) c l₁ ∧
      (stmts scope (some l.mark.stmtId) thenBody).Gives { l₁ with frames := [] :: l₁.frames } t
        l₂ ∧
      (stmts scope (some l.mark.stmtId) elseBody).Gives { l₂ with frames := [] :: l₁.frames } f
        l₃ ∧
      l' = putKind { l₃ with frames := l₁.frames } l.mark.stmtId (.branch c t f) := by
  replace h := gives_bind.1 h
  simp only [gives_bind, gives_addStmt, gives_withFrame, gives_setKind, gives_pure] at h
  obtain ⟨_, _, ⟨rfl, rfl⟩, c, l₁, hc, t, _, ⟨l₂, ht, rfl⟩, f, _, ⟨l₃, hf, rfl⟩, _, _, rfl, hi,
    hl'⟩ := h
  exact ⟨c, l₁, t, l₂, f, l₃, hi, hc, ht, hf, hl'⟩

theorem gives_select {selector : Source.Expr} {arms : List Source.Arm}
    (h : (stmt scope parent (.select selector arms)).Gives l i l') :
    ∃ c l₁ first l₂, i = l.mark.stmtId ∧
      (expr scope selector).Gives (pushStmt l parent scope) c l₁ ∧
      (armSeq scope l.mark.stmtId arms).Gives l₁ first l₂ ∧
      l' = putKind l₂ l.mark.stmtId (.select c first) := by
  replace h := gives_bind.1 h
  simp only [gives_bind, gives_addStmt, gives_setKind, gives_pure] at h
  obtain ⟨_, _, ⟨rfl, rfl⟩, c, l₁, hc, first, l₂, harms, _, _, rfl, hi, hl'⟩ := h
  exact ⟨c, l₁, first, l₂, hi, hc, harms, hl'⟩

theorem gives_return_none (h : (stmt scope parent (.return none)).Gives l i l') :
    i = l.mark.stmtId ∧
      l' = putKind (pushStmt l parent scope) l.mark.stmtId (.return none) := by
  replace h := gives_bind.1 h
  simp only [gives_bind, gives_addStmt, gives_setKind, gives_pure] at h
  obtain ⟨_, _, ⟨rfl, rfl⟩, _, _, rfl, hi, hl'⟩ := h
  exact ⟨hi, hl'⟩

theorem gives_return_some {value : Source.Expr}
    (h : (stmt scope parent (.return (some value))).Gives l i l') :
    ∃ v l₁, i = l.mark.stmtId ∧ (expr scope value).Gives (pushStmt l parent scope) v l₁ ∧
      l' = putKind l₁ l.mark.stmtId (.return (some v)) := by
  replace h := gives_bind.1 h
  simp only [gives_bind, gives_addStmt, gives_setKind, gives_pure] at h
  obtain ⟨_, _, ⟨rfl, rfl⟩, v, l₁, hv, _, _, rfl, hi, hl'⟩ := h
  exact ⟨v, l₁, hi, hv, hl'⟩

/-- A label is noted down if none of its name was. -/
theorem gives_label {name : String} (h : (stmt scope parent (.label name)).Gives l i l') :
    i = l.mark.stmtId ∧ (l.labels.lookup name).isSome = false ∧
      l' = putKind { pushStmt l parent scope with labels := (name, l.mark.stmtId) :: l.labels }
        l.mark.stmtId (.label name) := by
  replace h := gives_bind.1 h
  simp only [gives_bind, gives_addStmt, gives_declareLabel, gives_setKind, gives_pure] at h
  obtain ⟨_, _, ⟨rfl, rfl⟩, _, _, ⟨hname, rfl⟩, _, _, rfl, hi, hl'⟩ := h
  exact ⟨hi, hname, hl'⟩

/-- A jump is noted down, and goes to itself until it is resolved. -/
theorem gives_goto {label : String} (h : (stmt scope parent (.goto label)).Gives l i l') :
    i = l.mark.stmtId ∧
      l' = putKind { pushStmt l parent scope with jumps := (l.mark.stmtId, label) :: l.jumps }
        l.mark.stmtId (.goto l.mark.stmtId) := by
  replace h := gives_bind.1 h
  simp only [gives_bind, gives_addStmt, gives_recordJump, gives_setKind, gives_pure] at h
  obtain ⟨_, _, ⟨rfl, rfl⟩, _, _, rfl, _, _, rfl, hi, hl'⟩ := h
  exact ⟨hi, hl'⟩

/-- The rest of a sequence is linked before it is chained to the first statement. -/
theorem gives_stmts_cons {s : Source.Stmt} {ss : List Source.Stmt}
    (h : (stmts scope parent (s :: ss)).Gives l first l') :
    ∃ i l₁ next l₂, (stmt scope parent s).Gives l i l₁ ∧ (stmts scope parent ss).Gives l₁ next l₂ ∧
      first = some i ∧ l' = putNext l₂ i next := by
  replace h := gives_bind.1 h
  simp only [gives_bind, gives_setNext, gives_pure] at h
  obtain ⟨i, l₁, hs, next, l₂, hss, _, _, rfl, hfirst, hl'⟩ := h
  exact ⟨i, l₁, next, l₂, hs, hss, hfirst, hl'⟩

theorem gives_arm {select : StmtId} {cases : List Source.Expr} {ss : List Source.Stmt}
    (h : (arm scope select (.mk cases ss)).Gives l i l') :
    ∃ cs l₁ first l₂, i = l.mark.stmtId ∧
      (exprs scope cases).Gives (pushStmt l (some select) scope) cs l₁ ∧
      (stmts scope (some l.mark.stmtId) ss).Gives { l₁ with frames := [] :: l₁.frames } first l₂ ∧
      l' = putKind { l₂ with frames := l₁.frames } l.mark.stmtId (.arm cs first) := by
  replace h := gives_bind.1 h
  simp only [gives_bind, gives_addStmt, gives_withFrame, gives_setKind, gives_pure] at h
  obtain ⟨_, _, ⟨rfl, rfl⟩, cs, l₁, hcs, first, _, ⟨l₂, hbody, rfl⟩, _, _, rfl, hi, hl'⟩ := h
  exact ⟨cs, l₁, first, l₂, hi, hcs, hbody, hl'⟩

theorem gives_armSeq_cons {select : StmtId} {a : Source.Arm} {as : List Source.Arm}
    (h : (armSeq scope select (a :: as)).Gives l first l') :
    ∃ i l₁ next l₂, (arm scope select a).Gives l i l₁ ∧ (armSeq scope select as).Gives l₁ next l₂ ∧
      first = some i ∧ l' = putNext l₂ i next := by
  replace h := gives_bind.1 h
  simp only [gives_bind, gives_setNext, gives_pure] at h
  obtain ⟨i, l₁, ha, next, l₂, has, _, _, rfl, hfirst, hl'⟩ := h
  exact ⟨i, l₁, next, l₂, ha, has, hfirst, hl'⟩

/-! ### Functions and modules -/

/-- The frame in which the body of a declared function is linked: its parameters, the last one
first. -/
def paramFrame (l : Linker) (id : FnId) (params : List String) : List (String × VarId) :=
  (params.zip ((l.program.function? id).elim [] Function.params)).reverse

/-- **Linking a function** opens a scope inside the outer one and declares the inner functions in
it. In the frame of the parameters the body is linked and set, and the inner functions follow. -/
theorem gives_function {outer : ScopeId} {id : FnId} {name : String} {params : List String}
    {functions : List Source.Function} {ss : List Source.Stmt} {u : Unit}
    (h : (function outer id (.mk name params functions ss)).Gives l u l') :
    ∃ inner l₁ first l₂ l₃,
      (functions.mapM (declareFunction ⟨l.program.scopes.size⟩)).Gives (pushScope l outer)
        inner l₁ ∧
      (body ⟨l.program.scopes.size⟩ ss).Gives
        { l₁ with frames := paramFrame l₁ id params :: l₁.frames } first l₂ ∧
      (functionSeq ⟨l.program.scopes.size⟩ inner functions).Gives (putBody l₂ id first) u l₃ ∧
      l' = { l₃ with frames := l₁.frames } := by
  simp only [function, gives_bind, gives_addScope, gives_get] at h
  obtain ⟨_, _, ⟨rfl, rfl⟩, inner, _, hinner, _, l₁, ⟨rfl, rfl⟩, h⟩ := h
  obtain ⟨l₃, hinside, rfl⟩ := gives_withFrame.1 h
  simp only [gives_bind, gives_setBody] at hinside
  obtain ⟨first, l₂, hbody, _, _, rfl, hseq⟩ := hinside
  refine ⟨inner, l₁, first, l₂, l₃, hinner, ?_, hseq, rfl⟩
  rw [paramFrame]
  cases hf : l₁.program.function? id <;> rwa [hf] at hbody

/-- **Linking a module** opens a scope inside the root scope and declares the functions of the
module in it. The body is linked in a frame of its own, the functions follow, and the module is
added last. -/
theorem gives_module {m : Source.Module} {ids : List FnId} (h : (module m).Gives l ids l') :
    ∃ l₁ first l₂ l₃,
      (m.functions.mapM (declareFunction ⟨l.program.scopes.size⟩)).Gives
        (pushScope l Program.rootScope) ids l₁ ∧
      (body ⟨l.program.scopes.size⟩ m.body).Gives { l₁ with frames := [] :: l₁.frames }
        first l₂ ∧
      (functionSeq ⟨l.program.scopes.size⟩ ids m.functions).Gives l₂ () l₃ ∧
      l' = pushModule { l₃ with frames := l₁.frames }
        ⟨m.name, first, ⟨l.program.scopes.size⟩⟩ := by
  simp only [module, gives_bind, gives_addScope, gives_modifyProgram, gives_pure] at h
  obtain ⟨_, _, ⟨rfl, rfl⟩, _, l₁, hids, first, _, h, _, _, rfl, rfl, rfl⟩ := h
  obtain ⟨l₃, hinside, rfl⟩ := gives_withFrame.1 h
  simp only [gives_bind, gives_pure] at hinside
  obtain ⟨_, l₂, hbody, _, _, hseq, rfl, rfl⟩ := hinside
  exact ⟨l₁, _, l₂, _, hids, hbody, hseq, rfl⟩

end Link

end TreeMachine
