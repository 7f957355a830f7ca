import TreeMachine.Linking

/-!
# Well-formed programs

A linked program is a forest in tables. `Program.WellFormed` says what that means: every id that a
table holds lies in its table; the parts of an expression come before it; a sequence hangs together
by successors that share a parent and a scope; the first statement of a sequence names the statement
that holds the sequence as its parent; arms stand in selects and nowhere else; and a jump goes to a
label of a sequence around it. The expressions of a statement come after those of the statements
that enclose it, so that no statement evaluates an expression of a statement around it.

All of it is local: each condition is about one node and the nodes that it refers to, so that it can
be used where the node is looked up, with nothing to be searched for. The numbers carry the rest.
Successors, first statements and inner scopes have greater numbers than what leads to them, so
inductions along a sequence, a chain of parents or a chain of scopes are inductions on numbers, and
no statement encloses itself (`Program.WellFormed.lt_of_encloses`).

It is not said that every statement is reached, or that two sequences are disjoint. Those are
properties of linked programs as well, and they are proved apart from this, since runs do not need
them.

`Program.SimpleLoops` is not a part of it: a definition may have a loop over several collections,
and it is linked like any other.
-/

namespace TreeMachine

/-! ### Parts of nodes -/

/-- The expressions that a statement evaluates itself. -/
def StmtKind.exprs : StmtKind → List ExprId
  | .expr e => [e]
  | .block _ => []
  | .loop cond _ _ => [cond]
  | .forall _ iterators _ => iterators
  | .branch cond _ _ => [cond]
  | .select selector _ => [selector]
  | .arm cases _ => cases
  | .return value => value.toList
  | .label _ => []
  | .goto _ => []

/-- The first statements of the sequences in a statement. -/
def StmtKind.children : StmtKind → List StmtId
  | .expr _ => []
  | .block body => body.toList
  | .loop _ body _ => body.toList
  | .forall _ _ body => body.toList
  | .branch _ thenBody elseBody => thenBody.toList ++ elseBody.toList
  | .select _ arms => arms.toList
  | .arm _ body => body.toList
  | .return _ => []
  | .label _ => []
  | .goto _ => []

/-- The variables that a statement declares itself. -/
def StmtKind.vars : StmtKind → List VarId
  | .forall indices _ _ => indices
  | _ => []

/-- Whether a statement is an arm of a select. -/
def StmtKind.isArm : StmtKind → Bool
  | .arm .. => true
  | _ => false

/-- Whether a statement is a select. -/
def StmtKind.isSelect : StmtKind → Bool
  | .select .. => true
  | _ => false

/-- Whether a statement is a jump. -/
def StmtKind.isGoto : StmtKind → Bool
  | .goto _ => true
  | _ => false

/-- The expressions that are evaluated for an expression. -/
def Expr.parts : Expr → List ExprId
  | .assign _ value => [value]
  | .call callee args => callee :: args
  | .choose cond thenExpr elseExpr => [cond, thenExpr, elseExpr]
  | _ => []

/-- The variables that an expression names. -/
def Expr.vars : Expr → List VarId
  | .var x => [x]
  | .declare x => [x]
  | .assign x _ => [x]
  | .closure params _ => params
  | _ => []

namespace Program

/-! ### Enclosing statements and subexpressions -/

/-- The parent of a statement of the table. -/
theorem parent?_eq {p : Program} {i : StmtId} {s : Stmt} (h : p.stmt? i = some s) :
    p.parent? i = s.parent := by
  rw [parent?, h, Option.bind_some]

/-- A statement encloses another one: it is its parent, or encloses its parent. -/
inductive Encloses (p : Program) (q : StmtId) : StmtId → Prop
  | direct {i : StmtId} (h : p.parent? i = some q) : Encloses p q i
  | outer {i r : StmtId} (h : p.parent? i = some r) (hr : Encloses p q r) : Encloses p q i

/-- What is listed as enclosing a statement encloses it. -/
theorem encloses_of_mem_enclosing {p : Program} {q : StmtId} {count : Nat} {i : StmtId}
    (h : q ∈ p.enclosing count i) : p.Encloses q i := by
  induction count generalizing i with
  | zero => simp [enclosing] at h
  | succ count ih =>
    unfold enclosing at h
    cases hp : p.parent? i with
    | none => simp [hp] at h
    | some r =>
      simp only [hp, List.mem_cons] at h
      rcases h with rfl | h
      · exact .direct hp
      · exact .outer hp (ih h)

/-- An expression and all that is evaluated for it have numbers from `n` on. -/
inductive From (p : Program) (n : Nat) : ExprId → Prop
  | mk {e : ExprId} (le : n ≤ e.index)
      (parts : ∀ x, p.expr? e = some x → ∀ c ∈ x.parts, From p n c) : From p n e

/-- What has numbers from `n` on has numbers from any smaller number on. -/
theorem From.mono {p : Program} {n n' : Nat} {e : ExprId} (h : p.From n e) (hn : n' ≤ n) :
    p.From n' e := by
  induction h with
  | mk le _ ih => exact .mk (by omega) ih

theorem From.le {p : Program} {n : Nat} {e : ExprId} (h : p.From n e) : n ≤ e.index := by
  cases h with
  | mk le _ => exact le

theorem From.part {p : Program} {n : Nat} {e c : ExprId} {x : Expr} (h : p.From n e)
    (hx : p.expr? e = some x) (hc : c ∈ x.parts) : p.From n c := by
  cases h with
  | mk _ parts => exact parts x hx c hc

/-- Evaluating an expression involves evaluating another one: itself, or one that is evaluated for
what it involves. -/
inductive Involves (p : Program) (r : ExprId) : ExprId → Prop
  | self : Involves p r r
  | part {e c : ExprId} {x : Expr} (h : Involves p r e) (hx : p.expr? e = some x)
      (hc : c ∈ x.parts) : Involves p r c

/-- What an expression involves has numbers from where its own are. -/
theorem Involves.from {p : Program} {n : Nat} {r e : ExprId} (h : p.Involves r e)
    (hr : p.From n r) : p.From n e := by
  induction h with
  | self => exact hr
  | part _ hx hc ih => exact ih.part hx hc

/-! ### Well-formedness -/

/-- A jump goes to a label whose sequence is at the top of a body or belongs to a statement that
encloses the jump. -/
def GotoFits (p : Program) (i target : StmtId) : Prop :=
  ∃ s name, p.stmt? target = some s ∧ s.kind = .label name ∧
    ∀ q, s.parent = some q → p.Encloses q i

/-- The body of a function, a module or a closure starts with a statement that nothing encloses. -/
def BodyFits (p : Program) (first : Option StmtId) : Prop :=
  ∀ c, first = some c → ∃ s, p.stmt? c = some s ∧ s.parent = none ∧ s.kind.isArm = false

/-- A statement fits into a program. -/
structure StmtFits (p : Program) (i : StmtId) (s : Stmt) : Prop where
  scope : s.scope.index < p.scopes.size
  exprs : ∀ e ∈ s.kind.exprs, ∃ x, p.expr? e = some x
  vars : ∀ x ∈ s.kind.vars, x.index < p.vars.size
  parent : ∀ q, s.parent = some q → q.index < i.index
  next : ∀ t, s.next = some t → i.index < t.index ∧ ∃ s', p.stmt? t = some s' ∧
    s'.parent = s.parent ∧ s'.scope = s.scope ∧ s'.kind.isArm = s.kind.isArm
  children : ∀ c ∈ s.kind.children, ∃ s', p.stmt? c = some s' ∧
    s'.parent = some i ∧ s'.scope = s.scope ∧ s'.kind.isArm = s.kind.isSelect
  arm : s.kind.isArm = true → ∃ q s', s.parent = some q ∧ p.stmt? q = some s' ∧
    s'.kind.isSelect = true
  select : ∀ q s', s.parent = some q → p.stmt? q = some s' → s'.kind.isSelect = s.kind.isArm
  after : ∀ q s', p.Encloses q i → p.stmt? q = some s' →
    ∀ e' ∈ s'.kind.exprs, ∀ e ∈ s.kind.exprs, p.From (e'.index + 1) e

/-- An expression fits into a program. -/
structure ExprFits (p : Program) (e : ExprId) (x : Expr) : Prop where
  parts : ∀ c ∈ x.parts, c.index < e.index
  vars : ∀ y ∈ x.vars, y.index < p.vars.size
  function : ∀ f, x = .function f → f.index < p.functions.size
  closure : ∀ params first, x = .closure params first → p.BodyFits first

/-- A function fits into a program. -/
structure FunctionFits (p : Program) (f : Function) : Prop where
  scope : f.scope.index < p.scopes.size
  params : ∀ x ∈ f.params, x.index < p.vars.size
  body : ∀ first, f.body = .code first → p.BodyFits first

/-- A scope fits into a program. -/
structure ScopeFits (p : Program) (i : ScopeId) (s : Scope) : Prop where
  parent : ∀ q, s.parent = some q → q.index < i.index
  functions : ∀ f ∈ s.functions, f.index < p.functions.size

/-- **Well-formed programs**, whose iterable objects are the ranges. -/
structure WellFormed (p : Program) : Prop where
  stmts : ∀ i s, p.stmt? i = some s → p.StmtFits i s
  gotos : ∀ i s target, p.stmt? i = some s → s.kind = .goto target → p.GotoFits i target
  exprs : ∀ e x, p.expr? e = some x → p.ExprFits e x
  functions : ∀ id f, p.function? id = some f → p.FunctionFits f
  scopes : ∀ i s, p.scope? i = some s → p.ScopeFits i s
  root : rootScope.index < p.scopes.size
  modules : ∀ m ∈ p.modules, m.scope.index < p.scopes.size ∧ p.BodyFits m.body
  entry : ∀ f, p.entry = some f → f.index < p.functions.size
  iterables : p.iterables = [(Iterable.rangeType, Iterable.range)]

/-- Every loop over a collection has one index variable and one iterator. -/
def SimpleLoops (p : Program) : Prop :=
  ∀ i s, p.stmt? i = some s → ∀ indices iterators body,
    s.kind = .forall indices iterators body → indices.length = 1 ∧ iterators.length = 1

theorem simpleLoops_iff {p : Program} : p.SimpleLoops ↔
    (p.stmts.toList.all fun s => match s.kind with
      | .forall indices iterators _ => indices.length == 1 && iterators.length == 1
      | _ => true) = true := by
  rw [List.all_eq_true]
  constructor
  · intro h s hs
    obtain ⟨i, hi⟩ := List.mem_iff_getElem?.1 hs
    have hloop := h ⟨i⟩ s (by rw [stmt?, ← Array.getElem?_toList]; exact hi)
    split
    · rename_i indices iterators body hkind
      simpa using hloop indices iterators body hkind
    · rfl
  · intro h i s hs indices iterators body hkind
    have hloop := h s (Array.mem_toList_iff.2 (Array.mem_of_getElem? hs))
    rw [hkind] at hloop
    simpa using hloop

instance (p : Program) : Decidable p.SimpleLoops :=
  decidable_of_iff _ simpleLoops_iff.symm

/-- What encloses a statement comes before it. -/
theorem WellFormed.lt_of_encloses {p : Program} (hp : p.WellFormed) {q i : StmtId}
    (h : p.Encloses q i) : q.index < i.index := by
  have hparent : ∀ {i r : StmtId}, p.parent? i = some r → r.index < i.index := by
    intro i r hr
    obtain ⟨s, hs, hr⟩ := Option.bind_eq_some_iff.1 hr
    exact (hp.stmts i s hs).parent r hr
  induction h with
  | direct h => exact hparent h
  | outer h _ ih => exact Nat.lt_trans ih (hparent h)

/-- The parts of an expression are in the table. -/
theorem WellFormed.part {p : Program} (hp : p.WellFormed) {e c : ExprId} {x : Expr}
    (hx : p.expr? e = some x) (hc : c ∈ x.parts) : ∃ y, p.expr? c = some y := by
  have hlt : c.index < p.exprs.size :=
    Nat.lt_trans ((hp.exprs e x hx).parts c hc) (Array.getElem?_eq_some_iff.1 hx).1
  exact ⟨p.exprs[c.index], Array.getElem?_eq_getElem hlt⟩

/-- The parts of an expression come before it, so they end somewhere. -/
theorem WellFormed.from_zero {p : Program} (hp : p.WellFormed) (e : ExprId) : p.From 0 e := by
  obtain ⟨n⟩ := e
  induction n using Nat.strongRecOn with
  | ind n ih =>
    refine .mk (Nat.zero_le _) fun x hx c hc => ?_
    exact ih c.index ((hp.exprs ⟨n⟩ x hx).parts c hc)

/-- The functions that a name stands for are in the table. -/
theorem WellFormed.function?_of_resolve {p : Program} (hp : p.WellFormed) {scope : ScopeId}
    {name : String} {id : FnId} (h : p.resolve scope name = .ok id) :
    ∃ f, p.function? id = some f := by
  have hmem : id ∈ p.visible scope name := by
    unfold resolve at h
    split at h
    · rename_i fs hfs
      cases h
      exact hfs ▸ List.mem_cons_self
    · cases h
  obtain ⟨s, -, hmem⟩ := List.mem_flatMap.1 hmem
  unfold named at hmem
  split at hmem
  · rename_i t ht
    have hlt := (hp.scopes s t ht).functions id (List.mem_filter.1 hmem).1
    exact ⟨p.functions[id.index], Array.getElem?_eq_getElem hlt⟩
  · cases hmem

end Program

end TreeMachine
