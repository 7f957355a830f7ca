import TreeMachine.Proofs.Execution.Rules

/-!
# What a unit of work can come to

A unit of work on a statement fails where it is, goes on at a stage of the statement, begins a
sequence inside it, finishes it, leaves the select around it, jumps to a label, returns, or sends a
message. `StmtMoves` lists these cases with what each does to the place of the activation, and
`Frame.AtStmt.moves` says that there are no others. `ExprMoves` and `Frame.moves_expr` do the same
for expressions, which leave the statement alone. Nothing is assumed about operands and values, so a
work that fails is covered as well.

The two relations are the interface for everything that is about where an activation is: chains of
waiting statements, bodies, jumps and labels, the expressions that are being evaluated. A proof
about these goes by cases on a relation with eight cases and never looks at the stages of a kind of
statement. What the cases do not tell is which operands were taken and what was written; for that
there are other descriptions of the same work (`Frame.StmtChanges`, `Frame.Draws`).

Both relations are instances of the rules for units of work, so that the kinds of nodes are gone
through in one place.
-/

namespace TreeMachine

/-! ### Cases of a unit of work -/

/-- What an activation stands on: what waits around its statement, what is suspended around its
expression, and its function. -/
structure Footing where
  waiting : List StmtId
  resumes : List Nat
  suspended : List (ExprId × Nat)
  function : Option FnId

def Frame.footing (f : Frame) : Footing :=
  ⟨f.waiting, f.resumes, f.suspended, f.function⟩

/-- What a unit of work on a statement comes to, from a footing. -/
inductive StmtMoves (p : Program) (i : StmtId) (s : Stmt) (b : Footing) : Work → Prop
  | fails {g : Frame} {e : Fault} (hstmt : g.stmt = some i) (hfooting : g.footing = b)
      (hstage : s.kind.hasStage g.stage = true) : StmtMoves p i s b (g, .error e)
  | stays {g : Frame} (hstmt : g.stmt = some i) (hfooting : g.footing = b)
      (hstage : s.kind.hasStage g.stage = true) : StmtMoves p i s b (g, .ok .pending)
  | enters {g : Frame} {c : StmtId} {resume : Nat} (hc : c ∈ s.kind.children)
      (hresume : s.kind.resume? = some resume) (hstmt : g.stmt = some c) (hstage : g.stage = 0)
      (hfooting : g.footing =
        { b with waiting := i :: b.waiting, resumes := resume :: b.resumes }) :
      StmtMoves p i s b (g, .ok .pending)
  | completes {g : Frame} (hstmt : g.stmt = some i) (hfooting : g.footing = b) :
      StmtMoves p i s b (g, .ok .complete)
  | leaves {g : Frame} {q : StmtId} {waiting : List StmtId} {resumes : List Nat}
      (hparent : s.parent = some q) (hwaiting : b.waiting = q :: waiting)
      (hresumes : b.resumes = 0 :: resumes) (hstmt : g.stmt = some q)
      (hfooting : g.footing = { b with waiting := waiting, resumes := resumes }) :
      StmtMoves p i s b (g, .ok .complete)
  | jumps {g : Frame} {t : StmtId} {label : Stmt} {waiting : List StmtId} {resumes : List Nat}
      (hk : s.kind = .goto t) (ht : p.stmt? t = some label)
      (hchain : p.Chain label.parent waiting resumes) (hstmt : g.stmt = some t)
      (hstage : g.stage = 0)
      (hfooting : g.footing = { b with waiting := waiting, resumes := resumes }) :
      StmtMoves p i s b (g, .ok .jumped)
  | returns {g : Frame} {v : Value} (hstmt : g.stmt = some i) (hfooting : g.footing = b)
      (hstage : s.kind.hasStage g.stage = true) : StmtMoves p i s b (g, .ok (.leave v))
  | sends {g : Frame} {n : Nat} {indices : List VarId} {iterators : List ExprId}
      {body : Option StmtId} (hstmt : g.stmt = some i) (hfooting : g.footing = b)
      (hexpr : g.expr = none) (hkind : s.kind = .forall indices iterators body)
      (hstage : g.stage ∈ ForallStage.answered) : StmtMoves p i s b (g, .ok (.call n))

/-- Two activations are at the same stage of the same statement. -/
structure Frame.SameStmt (f g : Frame) : Prop where
  stmt : g.stmt = f.stmt
  stage : g.stage = f.stage
  waiting : g.waiting = f.waiting
  resumes : g.resumes = f.resumes
  function : g.function = f.function

/-- What a unit of work on an expression comes to. -/
inductive ExprMoves (e : ExprId) (x : Expr) (f : Frame) : Work → Prop
  | fails {g : Frame} {err : Fault} (hstmt : f.SameStmt g)
      (hsuspended : g.suspended = f.suspended) : ExprMoves e x f (g, .error err)
  | suspends {g : Frame} {c : ExprId} {resume : Nat} (hc : c ∈ x.parts)
      (hresume : x.resumesAt resume = true) (hstmt : f.SameStmt g)
      (hsuspended : g.suspended = (e, resume) :: f.suspended) (hexpr : g.expr = some c) :
      ExprMoves e x f (g, .ok .pending)
  | replaced {g : Frame} (hstmt : f.SameStmt g) (hsuspended : g.suspended = f.suspended) :
      ExprMoves e x f (g, .ok .pending)
  | finishes {g : Frame} (hstmt : f.SameStmt g) (hsuspended : g.suspended = f.suspended.tail) :
      ExprMoves e x f (g, .ok .pending)
  | calls {g : Frame} {callee : ExprId} {args : List ExprId} (hx : x = .call callee args)
      (hstmt : f.SameStmt g) (hsuspended : g.suspended = f.suspended) (hexpr : g.expr = some e)
      (hstage : g.exprStage = CallStage.number args.length .complete) :
      ExprMoves e x f (g, .ok (.call (args.length + 1)))

namespace Frame

/-- An activation works on a statement itself, at one of its stages. -/
structure AtStmt (p : Program) (i : StmtId) (s : Stmt) (f : Frame) : Prop where
  stmt : f.stmt = some i
  expr : f.expr = none
  found : p.stmt? i = some s
  chain : p.Chain s.parent f.waiting f.resumes
  stage : s.kind.hasStage f.stage = true

variable {p : Program} {i : StmtId} {s : Stmt} {f : Frame}

/-! ### Work on a statement -/

namespace AtStmt

/-- An arm that has run its body finds its select waiting: a select is finished with its arms. -/
theorem popWaiting (h : f.AtStmt p i s) {q : StmtId} {t : Stmt} (hq : s.parent = some q)
    (ht : p.stmt? q = some t) (hselect : t.kind.isSelect = true) :
    f.popWaiting.1 = some (q, 0) := by
  have hchain := h.chain
  rw [hq] at hchain
  obtain ⟨t', stage, waiting, resumes, ht', hresume, -, hwaiting, hresumes⟩ := hchain.of_some
  cases ht.symm.trans ht'
  have hzero : stage = 0 := by
    cases hk : t.kind <;> rw [hk] at hselect hresume <;> cases hselect
    exact (Option.some.inj hresume).symm
  subst hzero
  simp only [Frame.popWaiting, hwaiting, hresumes]

/-- A jump reaches its label: the statement around the label encloses the jump, so it waits. -/
theorem chain_unwind (h : f.AtStmt p i s) (hp : p.WellFormed) {t : StmtId} {label : Stmt}
    (hkind : s.kind = .goto t) (ht : p.stmt? t = some label) :
    p.Chain label.parent (unwind label.parent f.waiting f.resumes).1
      (unwind label.parent f.waiting f.resumes).2 := by
  obtain ⟨label', name, hlabel, -, hencloses⟩ := hp.gotos i s t h.found hkind
  cases ht.symm.trans hlabel
  have hparent : p.parent? i = s.parent := Program.parent?_eq h.found
  have hmem : ∀ q, label.parent = some q → q ∈ f.waiting := by
    intro q hq
    exact Program.Chain.mem_of_encloses (hencloses q hq) (hparent ▸ h.chain)
  exact (h.chain.unwind hmem).1

end AtStmt

/-- The cases obey the rules of work on a statement. -/
theorem stmtRules_moves (hp : p.WellFormed) (b : Footing) :
    StmtRules p i s (fun g => g.AtStmt p i s ∧ g.footing = b) (fun _ => True)
      (StmtMoves p i s b) where
  operand hg _ := ⟨trivial, { hg.1 with }, hg.2⟩
  remembered _ _ _ := trivial
  write hg _ _ := ⟨{ hg.1 with }, hg.2⟩
  pushEmpty hg := ⟨{ hg.1 with }, hg.2⟩
  setStage hg hstage := ⟨{ hg.1 with stage := hstage }, hg.2⟩
  fails hg := .fails hg.1.stmt hg.2 hg.1.stage
  stays hg := .stays hg.1.stmt hg.2 hg.1.stage
  evaluates {g e stage} hg _ hstage := by
    rw [Frame.evaluate, eval_of_expr_none hg.1.expr]
    exact .stays hg.1.stmt hg.2 hstage
  enters hg hj hc hresume := by
    obtain ⟨hat, rfl⟩ := hg
    cases hat.stmt.symm.trans hj
    exact .enters hc hresume rfl rfl rfl
  completes hg := .completes hg.1.stmt hg.2
  sends {g _ _ _ _ _ _ state} hg hkind hstage _ _ := by
    cases state
    all_goals exact .sends hg.1.stmt hg.2 hg.1.expr hkind hstage
  leaves hg hq hwaiting hresumes := by
    obtain ⟨hat, rfl⟩ := hg
    exact .leaves hq hwaiting hresumes rfl rfl
  lost hg hq ht hselect hpop := absurd (hg.1.popWaiting hq ht hselect) hpop
  jumps hg hkind ht _ := by
    obtain ⟨hat, rfl⟩ := hg
    exact .jumps hkind ht (hat.chain_unwind hp hkind ht) rfl rfl rfl
  strays hg hkind ht hhead := absurd (hg.1.chain_unwind hp hkind ht).head? hhead
  returns hg _ := .returns hg.1.stmt hg.2 hg.1.stage

/-- **A unit of work on a statement** comes to one of the cases. -/
theorem AtStmt.moves (h : f.AtStmt p i s) (hp : p.WellFormed) :
    StmtMoves p i s f.footing (f.workStmt p i s) :=
  (stmtRules_moves hp f.footing).workStmt ⟨h, rfl⟩

/-! ### Work on an expression -/

variable {e : ExprId} {x : Expr}

theorem SameStmt.refl (f : Frame) : f.SameStmt f :=
  ⟨rfl, rfl, rfl, rfl, rfl⟩

/-- The cases obey the rules of work on an expression. -/
theorem exprRules_moves (f : Frame) :
    ExprRules e x (fun g => f.SameStmt g ∧ g.suspended = f.suspended ∧ g.expr = some e)
      (fun _ => True) (ExprMoves e x f) where
  operand hg _ := ⟨trivial, { hg.1 with }, hg.2⟩
  reads _ _ _ := trivial
  constant _ := trivial
  declares hg _ := ⟨{ hg.1 with }, hg.2⟩
  assigns hg _ _ := ⟨{ hg.1 with }, hg.2⟩
  fails hg := .fails hg.1 hg.2.1
  evaluates {g c resume} hg hc hresume := by
    obtain ⟨hsame, hsuspended, hexpr⟩ := hg
    rw [Frame.evaluate, eval_of_expr_some hexpr, hsuspended]
    exact .suspends hc hresume { hsame with } rfl rfl
  replaces hg _ := .replaced { hg.1 with } hg.2.1
  finishes hg _ := by
    rw [finish_eq]
    exact .finishes { hg.1 with } (congrArg List.tail hg.2.1)
  calls hg hx := .calls hx { hg.1 with } hg.2.1 hg.2.2 rfl

/-- **A unit of work on an expression** comes to one of the cases. -/
theorem moves_expr (p : Program) (hexpr : f.expr = some e) (x : Expr) :
    ExprMoves e x f (f.workExpr p e x) :=
  (exprRules_moves f).workExpr ⟨.refl f, rfl, hexpr⟩ p

end Frame

end TreeMachine
