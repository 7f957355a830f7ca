import TreeMachine.Proofs.Soundness.Work

/-!
# Work on expressions is sound

A unit of work on an expression never fails for a defect, in an activation that has the right shape
and holds sound values (`Frame.OnExpr.workExpr`). The operands of the expression are on top of those
of the suspended ones, and a value that is finished with is the operand that the next suspended
expression, or the statement, misses.

The number of operands below those of the current expression is a parameter of the statement
(`Frame.OnExpr`). So each kind of expression is treated as if it were alone on the stack: a stage
has as many operands as it says, and the rest is not touched. To evaluate a part is to suspend the
expression at the stage at which it is resumed, which misses one operand, and to start again with
nothing on top. To finish it is the reverse (`Frame.OnExpr.finish`), and the last to be resumed is
the statement.

The stages of a call count its arguments, so the induction over them is hidden in the stage: at the
stage of an argument the values before it are there, together with the callee.
-/

namespace TreeMachine

namespace Frame

/-- An activation works on an expression, for which it may have operands; `n` others belong to the
suspended ones. It holds sound values. -/
structure OnExpr (p : Program) (heap : Heap) (e : ExprId) (x : Expr) (n : Nat) (f : Frame) :
    Prop where
  within : ∃ i s, f.Within p i s ∧ s.kind.held f.stage = some 1
  expr : f.expr = some e
  found : p.expr? e = some x
  suspended : p.Suspends f.suspended n
  holds : f.Holds p heap

variable {p : Program} {heap : Heap} {f : Frame} {e : ExprId} {x : Expr} {n : Nat}

theorem sound_atExprStage {σ : Type} {stage : Option σ} {held : σ → Nat} {k : Nat}
    (hheld : stage.map held = some k) {work : Frame → σ → Work}
    (hwork : ∀ st, stage = some st → held st = k → Work.Sound p heap (work f st)) :
    Work.Sound p heap (f.atExprStage e x stage work) := by
  cases stage with
  | none => cases hheld
  | some st => exact hwork st rfl (Option.some.inj hheld)

namespace OnExpr

/-- The operands may change to sound ones. -/
theorem setOperands (h : f.OnExpr p heap e x n) {operands : List Value}
    (hsound : ∀ v ∈ operands, v.Sound p heap) :
    OnExpr p heap e x n { f with operands := operands } where
  within :=
    let ⟨i, s, hw, hheld⟩ := h.within
    ⟨i, s, { hw with }, hheld⟩
  expr := h.expr
  found := h.found
  suspended := h.suspended
  holds := h.holds.setOperands _ hsound

/-- The environment may be written to. -/
theorem put (h : f.OnExpr p heap e x n) (k : Key) {v : Value} (hv : v.Sound p heap) :
    OnExpr p heap e x n { f with env := f.env.put k v } where
  within :=
    let ⟨i, s, hw, hheld⟩ := h.within
    ⟨i, s, hw.mono rfl rfl rfl (fun _ hk => hk.put k v) fun _ hk => (hw.needs _ hk).put k v, hheld⟩
  expr := h.expr
  found := h.found
  suspended := h.suspended
  holds := h.holds.put k hv

/-- **Finishing an expression** gives its value to what misses an operand: the innermost suspended
expression, or the statement when there is none. -/
theorem finish (h : f.OnExpr p heap e x n) (hlength : f.operands.length = n) {v : Value}
    (hv : v.Sound p heap) : Work.Sound p heap ((f.finish v).demand .pending) := by
  refine sound_pending ?_ (h.holds.finish hv)
  obtain ⟨i, s, hw, hheld⟩ := h.within
  have henv : ∀ k, f.env.Has k → (remember f.env f.expr v).Has k := by
    intro k hk
    rw [h.expr]
    exact hk.put (.expr e) v
  rw [finish_eq]
  have hsuspended := h.suspended
  generalize hS : f.suspended = suspended at hsuspended
  cases hsuspended with
  | nil =>
    refine .stmt (hw.mono rfl rfl rfl henv fun k hk => henv k (hw.needs k hk)) rfl rfl ?_
    exact hheld.trans (congrArg (fun n => some (n + 1)) hlength.symm)
  | @cons e' x' stage k n' rest hx' hheld' hrest =>
    refine .expr (hw.mono rfl rfl rfl henv fun k hk => henv k (hw.needs k hk)) hheld rfl hx' hheld'
      hrest ?_
    have hcount : f.operands.length + 1 = k + 1 + n' := by omega
    exact hcount

/-- An expression evaluates one of its parts. The stage at which it is resumed misses one more
operand than there are. -/
theorem evaluate (h : f.OnExpr p heap e x n) (hp : p.WellFormed) {k : Nat}
    (hlength : f.operands.length = k + n) {part : ExprId} (hpart : part ∈ x.parts) {stage : Nat}
    (hstage : x.held stage = some (k + 1)) : Work.Sound p heap (f.evaluate part stage) := by
  obtain ⟨y, hy⟩ := hp.part h.found hpart
  obtain ⟨i, s, hw, hheld⟩ := h.within
  rw [Frame.evaluate, eval_of_expr_some h.expr]
  refine sound_pending ?_ { h.holds with }
  have hlength' : f.operands.length = 0 + (k + n) := by omega
  exact .expr { hw with } hheld rfl hy (Expr.held_zero y) (.cons h.found hstage h.suspended)
    hlength'

/-- The only operand of an expression is there, on top of those of the suspended ones. -/
theorem pop (h : f.OnExpr p heap e x n) (hlength : f.operands.length = 1 + n) (place : Place)
    {next : Value → Frame → Work}
    (hnext : ∀ v rest, v.Sound p heap → rest.length = n →
      OnExpr p heap e x n { f with operands := rest } →
      Work.Sound p heap (next v { f with operands := rest })) :
    Work.Sound p heap (f.pop place next) := by
  refine sound_pop h.holds (by omega) place fun v rest hcons hv hholds => ?_
  rw [hcons, List.length_cons] at hlength
  exact hnext v rest hv (by omega) (h.setOperands hholds.operands)

/-! ### Expressions -/

/-- The value of an expression without parts is sound, and a declaration only writes. -/
theorem workLeaf (h : f.OnExpr p heap e x n) (hp : p.WellFormed)
    (hlength : f.operands.length = n) (stage : LeafStage) :
    Work.Sound p heap (f.workLeaf p e x stage) := by
  simp only [Frame.workLeaf]
  cases hx : x with
  | var y =>
    simp only [leafValue]
    cases hget : f.env.get? (.var y) with
    | none => exact sound_complain _ _ _
    | some v =>
      cases hread : v.read with
      | error c => simp only [hread]; exact sound_complain _ _ _
      | ok w =>
        cases Value.eq_of_read hread
        simp only [hread]
        exact h.finish hlength (h.holds.env _ _ hget)
  | declare y => exact (h.put (.var y) (v := .uninitialized) trivial).finish hlength trivial
  | literal s => exact h.finish hlength trivial
  | name name => exact h.finish hlength trivial
  | function id =>
    refine h.finish hlength ?_
    have hlt := (hp.exprs e x h.found).function id hx
    exact ⟨p.functions[id.index], Array.getElem?_eq_getElem hlt⟩
  | closure => exact sound_complain _ _ _
  | assign => exact sound_complain _ _ _
  | call => exact sound_complain _ _ _
  | choose => exact sound_complain _ _ _

theorem workAssign (h : f.OnExpr p heap e x n) (hp : p.WellFormed) {target : VarId}
    {value : ExprId} (hx : x = .assign target value) (stage : AssignStage)
    (hlength : f.operands.length = stage.held + n) :
    Work.Sound p heap (f.workAssign p e target value stage) := by
  cases stage with
  | eval =>
    exact h.evaluate hp hlength (by rw [hx]; exact List.mem_cons_self) (by rw [hx]; rfl)
  | store =>
    refine h.pop hlength _ fun v rest hv hrest h' => ?_
    split
    · exact (h'.put (.var target) hv).finish hrest hv
    · exact sound_complain _ _ _

theorem workChoose (h : f.OnExpr p heap e x n) (hp : p.WellFormed) {cond thenExpr elseExpr : ExprId}
    (hx : x = .choose cond thenExpr elseExpr) (stage : BranchStage)
    (hlength : f.operands.length = stage.held + n) :
    Work.Sound p heap (f.workChoose e cond thenExpr elseExpr stage) := by
  cases stage with
  | test => exact h.evaluate hp hlength (by rw [hx]; exact List.mem_cons_self) (by rw [hx]; rfl)
  | branch =>
    refine h.pop hlength _ fun v rest _ hrest h' => ?_
    split
    · rename_i b _
      have hside : (if b then thenExpr else elseExpr) ∈ x.parts := by
        rw [hx]
        cases b
        · exact List.mem_cons_of_mem _ (List.mem_cons_of_mem _ List.mem_cons_self)
        · exact List.mem_cons_of_mem _ List.mem_cons_self
      obtain ⟨y, hy⟩ := hp.part h.found hside
      obtain ⟨i, s, hw, hheld⟩ := h'.within
      refine sound_pending ?_ { h'.holds with }
      have hcount : rest.length = 0 + n := by omega
      exact .expr { hw with } hheld rfl hy (Expr.held_zero y) h.suspended hcount
    · exact sound_complain _ _ _

theorem workCall (h : f.OnExpr p heap e x n) (hp : p.WellFormed) {callee : ExprId}
    {args : List ExprId} (hx : x = .call callee args) (stage : CallStage)
    (hstage : CallStage.ofNumber? args.length f.exprStage = some stage)
    (hlength : f.operands.length = stage.held args.length + n) :
    Work.Sound p heap (f.workCall e callee args stage) := by
  cases stage with
  | callee =>
    refine h.evaluate hp hlength (by rw [hx]; exact List.mem_cons_self) ?_
    rw [hx]
    exact CallStage.held_arg (Nat.zero_le _)
  | arg j =>
    have hlt := CallStage.lt_of_ofNumber?_arg hstage
    simp only [Frame.workCall, List.getElem?_eq_getElem hlt]
    refine h.evaluate hp hlength ?_ ?_
    · rw [hx]
      exact List.mem_cons_of_mem _ (List.getElem_mem hlt)
    · rw [hx]
      exact CallStage.held_arg hlt
  | invoke =>
    -- The operands of the call are those of the expression: the arguments on top of the callee.
    have hlen : (f.operands.take args.length).length = args.length := by
      rw [List.length_take, hlength, CallStage.held]
      omega
    have hdrop : (f.operands.drop args.length).length = n + 1 := by
      rw [List.length_drop, hlength, CallStage.held]
      omega
    obtain ⟨fn, rest, hrest⟩ := List.exists_cons_of_length_eq_add_one hdrop
    have hsplit : f.operands = f.operands.take args.length ++ fn :: rest := by
      rw [← hrest, List.take_append_drop]
    obtain ⟨i, s, hw, hheld⟩ := h.within
    have hstmt : f.stmt ≠ none := by
      rw [hw.stmt]
      exact Option.some_ne_none i
    refine ⟨{ h.holds with }, f.operands.take args.length, fn, rest, ?_, hsplit,
      ⟨fun v => ?_, fun hnone => absurd hnone hstmt⟩⟩
    · rw [hlen]
    · have hcount : rest.length + 1 = 1 + n := by
        rw [hrest, List.length_cons] at hdrop
        omega
      have hcomplete : x.held (CallStage.number args.length .complete) = some 1 := by
        rw [hx]
        simp only [Expr.held, CallStage.ofNumber?_complete]
        rfl
      exact .expr { hw with } hheld h.expr h.found hcomplete h.suspended hcount
  | complete => exact h.pop hlength _ fun v rest hv hrest h' => h'.finish hrest hv

/-- **Expressions**: a unit of work on an expression is sound. -/
theorem workExpr (h : f.OnExpr p heap e x n) (hp : p.WellFormed) {k : Nat}
    (hheld : x.held f.exprStage = some k) (hlength : f.operands.length = k + n) :
    Work.Sound p heap (f.workExpr p e x) := by
  have hleaf : (LeafStage.ofNumber? f.exprStage).map (fun _ => 0) = some k →
      Work.Sound p heap (f.atExprStage e x (LeafStage.ofNumber? f.exprStage)
        (Frame.workLeaf p e x)) := by
    refine fun hheld => sound_atExprStage hheld fun st _ hzero => ?_
    exact h.workLeaf hp (by omega) st
  unfold Frame.workExpr
  cases hx : x with
  | assign target value =>
    rw [hx] at hheld
    refine sound_atExprStage hheld fun st _ hk => ?_
    exact h.workAssign hp hx st (hk ▸ hlength)
  | choose cond thenExpr elseExpr =>
    rw [hx] at hheld
    refine sound_atExprStage hheld fun st _ hk => ?_
    exact h.workChoose hp hx st (hk ▸ hlength)
  | call callee args =>
    rw [hx] at hheld
    refine sound_atExprStage hheld fun st hst hk => ?_
    exact h.workCall hp hx st hst (hk ▸ hlength)
  | _ =>
    rw [hx] at hheld hleaf
    exact hleaf hheld

end OnExpr

end Frame

end TreeMachine
