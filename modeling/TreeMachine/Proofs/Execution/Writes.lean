import TreeMachine.Proofs.Execution.Rules

/-!
# What a unit of work writes

Work on an expression writes variables and what is remembered for this very expression, and goes on
with expressions that were suspended or are parts of it (`Frame.changes_expr`). Work on a statement
writes variables, what is remembered for the statement and for the expressions that it evaluates
itself, and begins none but those (`Frame.changes_stmt`). Everything else in the environment is left
alone. Nothing is assumed about the activation, and a work that fails is covered as well.

Both statements are instances of the rules for units of work. The property in the middle is that the
environment has changed only under keys of the node and that the suspended expressions are as they
were.

The keys of a node are what makes the statements around it safe. Numbers grow along the tree: a
statement is numbered before the ones inside it, and its expressions come before theirs, so a loop
over a collection finds its collection and its state unchanged when its body comes back, and a
select the value that it compares with. A statement without expressions of its own does not call
(`Frame.noCall_of_exprs_nil`), which is what makes the step of a label harmless.
-/

namespace TreeMachine

namespace Frame

/-- The expressions that are being evaluated: the current one, and those suspended around it. -/
def exprs (f : Frame) : List ExprId :=
  f.expr.toList ++ f.suspended.map Prod.fst

theorem mem_exprs {f : Frame} {d : ExprId} :
    d ∈ f.exprs ↔ f.expr = some d ∨ d ∈ f.suspended.map Prod.fst := by
  rw [exprs, List.mem_append, Option.mem_toList]

variable {p : Program} {f g h : Frame}

/-! ### Expressions -/

/-- What work on an expression may change. -/
structure ExprChanges (e : ExprId) (x : Expr) (f g : Frame) : Prop where
  env : ∀ k, k ≠ .expr e → (∀ y, k ≠ .var y) → g.env.get? k = f.env.get? k
  exprs : ∀ d ∈ g.exprs, d ∈ f.exprs ∨ d ∈ x.parts
  idle : g.expr = none → g.suspended = []

variable {e : ExprId} {x : Expr}

/-- The same expressions are being evaluated, and only variables were written. -/
structure SameExprs (f g : Frame) : Prop where
  env : ∀ k, (∀ y, k ≠ .var y) → g.env.get? k = f.env.get? k
  expr : g.expr = f.expr
  suspended : g.suspended = f.suspended

theorem SameExprs.refl (f : Frame) : f.SameExprs f :=
  ⟨fun _ _ => rfl, rfl, rfl⟩

/-- A variable is written. -/
theorem SameExprs.putVar (h : f.SameExprs g) (y : VarId) (v : Value) :
    f.SameExprs { g with env := g.env.put (.var y) v } := by
  refine ⟨fun k hk => ?_, h.expr, h.suspended⟩
  change (g.env.put (.var y) v).get? k = f.env.get? k
  rw [Env.get?_put, if_neg (hk y), h.env k hk]

theorem SameExprs.changes (h : f.SameExprs g) (hexpr : f.expr = some e) : ExprChanges e x f g := by
  refine ⟨fun k _ => h.env k, fun d hd => .inl ?_, fun hnone => ?_⟩
  · rwa [Frame.exprs, h.expr, h.suspended] at hd
  · rw [h.expr, hexpr] at hnone
    cases hnone

/-- Finishing the expression takes up what was suspended. -/
theorem SameExprs.finish (h : f.SameExprs g) (hexpr : f.expr = some e) (v : Value) :
    ExprChanges e x f (g.finish v) := by
  rw [finish_eq]
  refine ⟨fun k hk hvar => ?_, fun d hd => .inl ?_, fun hnone => ?_⟩
  · change (remember g.env g.expr v).get? k = f.env.get? k
    rw [h.expr, hexpr, remember, Env.get?_put, if_neg hk, h.env k hvar]
  · refine mem_exprs.2 (.inr ?_)
    rw [mem_exprs] at hd
    dsimp only at hd
    rw [h.suspended] at hd
    cases hs : f.suspended with
    | nil =>
      rw [hs] at hd
      rcases hd with hd | hd <;> cases hd
    | cons a rest =>
      rw [hs] at hd
      rcases hd with hd | hd
      · cases hd
        exact List.mem_cons_self
      · exact List.mem_cons_of_mem _ hd
  · dsimp only at hnone ⊢
    cases hs : g.suspended with
    | nil => rfl
    | cons a rest =>
      rw [hs] at hnone
      cases hnone

/-- The changes obey the rules of work on an expression. -/
theorem exprRules_changes (hexpr : f.expr = some e) :
    ExprRules e x f.SameExprs (fun _ => True) (fun w => ExprChanges e x f w.1) where
  operand hg _ := ⟨trivial, { hg with }⟩
  reads _ _ _ := trivial
  constant _ := trivial
  declares hg _ := hg.putVar _ _
  assigns hg _ _ := hg.putVar _ _
  fails hg := hg.changes hexpr
  evaluates {g c resume} hg hc _ := by
    rw [Frame.evaluate, eval_of_expr_some (hg.expr.trans hexpr)]
    refine ⟨fun k _ => hg.env k, fun d hd => ?_, fun hnone => by cases hnone⟩
    rcases mem_exprs.1 hd with hd | hd
    · cases hd
      exact .inr hc
    · rcases List.mem_cons.1 hd with rfl | hd
      · exact .inl (mem_exprs.2 (.inl hexpr))
      · exact .inl (mem_exprs.2 (.inr (hg.suspended ▸ hd)))
  replaces hg hc := by
    refine ⟨fun k _ => hg.env k, fun d hd => ?_, fun hnone => by cases hnone⟩
    rcases mem_exprs.1 hd with hd | hd
    · cases hd
      exact .inr hc
    · exact .inl (mem_exprs.2 (.inr (hg.suspended ▸ hd)))
  finishes hg _ := hg.finish hexpr _
  calls hg _ := SameExprs.changes { hg with } hexpr

/-- **What work on an expression changes.** -/
theorem changes_expr (p : Program) (hexpr : f.expr = some e) (x : Expr) :
    ExprChanges e x f (f.workExpr p e x).1 :=
  (exprRules_changes hexpr).workExpr (.refl f) p

/-! ### Statements -/

/-- What work on a statement may change. An expression that it begins is one of its own; then the
work is done, and the statement stays the current one. It also stays when there is a call. -/
structure StmtChanges (i : StmtId) (s : Stmt) (f : Frame) (w : Work) : Prop where
  env : ∀ k, k ≠ .stmt i → (∀ e ∈ s.kind.exprs, k ≠ .expr e) → (∀ y, k ≠ .var y) →
    w.1.env.get? k = f.env.get? k
  suspended : w.1.suspended = f.suspended
  begins : ∀ e, w.1.expr = some e →
    e ∈ s.kind.exprs ∧ w.1.stmt = f.stmt ∧ w.2 = .ok .pending
  call : ∀ n, w.2 = .ok (.call n) → w.1.stmt = f.stmt

variable {i : StmtId} {s : Stmt}

/-- An activation in the middle of work on a statement: it has no more changed than the work may,
and no expression is begun. -/
structure Amid (i : StmtId) (s : Stmt) (f g : Frame) : Prop where
  env : ∀ k, k ≠ .stmt i → (∀ e ∈ s.kind.exprs, k ≠ .expr e) → (∀ y, k ≠ .var y) →
    g.env.get? k = f.env.get? k
  suspended : g.suspended = f.suspended
  expr : g.expr = none
  stmt : g.stmt = f.stmt

theorem Amid.start (hexpr : f.expr = none) : Amid i s f f :=
  ⟨fun _ _ _ _ => rfl, rfl, hexpr, rfl⟩

namespace Amid

/-- What is not to be kept may be written. -/
theorem put (hg : Amid i s f g) {k : Key} (v : Value) (hk : StmtKey i s k) :
    Amid i s f { g with env := g.env.put k v } := by
  refine { hg with env := fun k' hstmt hexprs hvar => ?_ }
  change (g.env.put k v).get? k' = f.env.get? k'
  rw [Env.get?_put, if_neg, hg.env k' hstmt hexprs hvar]
  rintro rfl
  cases hk with
  | own => exact hstmt rfl
  | expr he => exact hexprs _ he rfl
  | var hy => exact hvar _ rfl

/-- The work is done, at the same statement. -/
theorem stops (hg : Amid i s f g) {w : Work} (henv : w.1.env = g.env)
    (hsuspended : w.1.suspended = g.suspended) (hexpr : w.1.expr = g.expr)
    (hstmt : w.1.stmt = g.stmt) : StmtChanges i s f w := by
  refine ⟨henv ▸ hg.env, hsuspended.trans hg.suspended, fun e he => ?_,
    fun _ _ => hstmt.trans hg.stmt⟩
  rw [hexpr, hg.expr] at he
  cases he

/-- The work is done with another statement as the current one, without a call. -/
theorem turns (hg : Amid i s f g) {g' : Frame} {d : Demand} (hd : ∀ n, d ≠ .call n)
    (henv : g'.env = g.env) (hsuspended : g'.suspended = g.suspended) (hexpr : g'.expr = g.expr) :
    StmtChanges i s f (g', .ok d) := by
  refine ⟨henv ▸ hg.env, hsuspended.trans hg.suspended, fun e he => ?_, fun n hn => ?_⟩
  · rw [hexpr, hg.expr] at he
    cases he
  · cases hn
    exact absurd rfl (hd n)

end Amid

/-- The changes obey the rules of work on a statement. -/
theorem stmtRules_changes (f : Frame) :
    StmtRules p i s (Amid i s f) (fun _ => True) (StmtChanges i s f) where
  operand hg _ := ⟨trivial, { hg with }⟩
  remembered _ _ _ := trivial
  write hg hk _ := hg.put _ hk
  pushEmpty hg := { hg with }
  setStage hg _ := { hg with }
  fails hg := hg.stops rfl rfl rfl rfl
  stays hg := hg.stops rfl rfl rfl rfl
  evaluates {g e stage} hg he _ := by
    rw [Frame.evaluate, eval_of_expr_none hg.expr]
    refine ⟨hg.env, hg.suspended, ?_, fun n hn => by cases hn⟩
    rintro _ ⟨⟩
    exact ⟨he, hg.stmt, rfl⟩
  enters hg _ _ _ := hg.turns nofun rfl rfl rfl
  completes hg := hg.stops rfl rfl rfl rfl
  sends {g _ _ _ _ _ _ state} hg _ _ _ _ := by
    cases state
    all_goals exact hg.stops rfl rfl rfl rfl
  -- The select takes the place of the arm, but no expression is begun and nothing is called.
  leaves hg _ _ _ := hg.turns nofun rfl rfl rfl
  lost {g _ _ _} hg _ _ _ _ := by
    obtain ⟨waiting, resumes, hpop⟩ := g.popWaiting_snd
    rw [hpop]
    exact hg.stops rfl rfl rfl rfl
  jumps hg _ _ _ := hg.turns nofun rfl rfl rfl
  strays hg _ _ _ := hg.stops rfl rfl rfl rfl
  returns hg _ := hg.stops rfl rfl rfl rfl

/-- **What work on a statement changes.** -/
theorem changes_stmt (p : Program) (hexpr : f.expr = none) (i : StmtId) (s : Stmt) :
    StmtChanges i s f (f.workStmt p i s) :=
  (stmtRules_changes f).workStmt (.start hexpr)

/-! ### Statements without expressions -/

/-- Work that makes no call. -/
def NoCall (w : Work) : Prop :=
  ∀ n, w.2 ≠ .ok (.call n)

/-- Of all statements only a loop over a collection makes calls, and it evaluates an expression. -/
theorem stmtRules_noCall (hs : s.kind.exprs = []) :
    StmtRules p i s (fun _ => True) (fun _ => True) NoCall where
  operand _ _ := ⟨trivial, trivial⟩
  remembered _ _ _ := trivial
  write _ _ _ := trivial
  pushEmpty _ := trivial
  setStage _ _ := trivial
  fails _ := nofun
  stays _ := nofun
  evaluates _ _ _ := nofun
  enters _ _ _ _ := nofun
  completes _ := nofun
  sends _ hkind _ _ _ := by
    rw [hkind] at hs
    cases hs
  leaves _ _ _ _ := nofun
  lost _ _ _ _ _ := nofun
  jumps _ _ _ _ := nofun
  strays _ _ _ _ := nofun
  returns _ _ := nofun

/-- **A statement without expressions** makes no call. -/
theorem noCall_of_exprs_nil (p : Program) (f : Frame) (i : StmtId) (hs : s.kind.exprs = []) :
    NoCall (f.workStmt p i s) :=
  (stmtRules_noCall hs).workStmt trivial

end Frame

end TreeMachine
