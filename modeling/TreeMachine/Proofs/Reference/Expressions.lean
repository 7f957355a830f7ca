import TreeMachine.Proofs.Execution.Stage
import TreeMachine.Proofs.Reference.Calls

/-!
# Simulating expressions

The machine evaluates the parts of an expression one at a time, with the values so far as operands,
and gives the expression the value that the evaluator gives it (`Evaluator.Simulated.evalExpr`). A
side of a conditional takes the place of the conditional.

While an expression is evaluated its activation is part of the way through it: at a stage of the
expression, with some operands on top of those that were there before, and with an environment that
has changed in variables and in what is remembered for parts of the expression (`Partway`). This is
the invariant between two steps. The suspended expressions and the statement are as they were, so a
part is again evaluated in an activation of the kind that the statement of simulation asks for
(`Evaluator.Simulated.part`).

The arguments of a call are an induction on those that are left, with the values of the others as
operands in reverse. The call itself is simulated elsewhere, whatever the callee is. It happens in
the scope of the statement, not in that of the expression, and the scope is a parameter that is
handed down unchanged.

What a conditional remembers its value under is the expression of the side that was taken. The
evaluator remembers nothing, so this difference does not show.
-/

namespace TreeMachine

variable {p : Program}

/-! ### Frames that evaluate -/

namespace Frame

variable {f : Frame} {e : ExprId}

theorem finish_given (h : f.expr = some e) (v : Value) :
    f.finish v = f.given (f.env.put (.expr e) v) v := by
  rw [finish_eq, h]
  rfl

/-- Work on an expression without parts at its only stage. -/
theorem workExpr_leaf {x : Expr} (hstage : f.exprStage = 0) (hparts : x.parts = []) :
    f.workExpr p e x = f.workLeaf p e x .eval := by
  cases x with
  | assign | call | choose => cases hparts
  | _ =>
    simp only [workExpr, atExprStage, hstage]
    rfl

/-- An activation at a stage of its current expression. -/
def partway (f : Frame) (env : Env) (stage : Nat) (operands : List Value) : Frame :=
  { f with env := env, operands := operands, exprStage := stage }

/-- The value of a part is an operand of the expression, at the stage at which it is resumed. -/
theorem eval_given (h : f.expr = some e) (part : ExprId) (stage : Nat) (env : Env) (v : Value) :
    (f.eval part stage).given env v = f.partway env stage (v :: f.operands) := by
  rcases f with
    ⟨env₀, waiting, resumes, suspended, operands, stmt, expr, stage₀, exprStage, fn, scope⟩
  cases h
  rfl

/-! ### Work at each stage -/

section Stages

variable {env : Env} {v : Value} {operands : List Value}

theorem workExpr_value {target : VarId} {value : ExprId} (hstage : f.exprStage = 0) :
    f.workExpr p e (.assign target value) = f.evaluate value 1 := by
  simp only [workExpr, atExprStage, hstage]
  rfl

/-- The value of an assignment is stored in a variable that has one. -/
theorem workExpr_store {target : VarId} {value : ExprId} {old : Value}
    (hold : env.get? (.var target) = some old) :
    (f.partway env 1 (v :: operands)).workExpr p e (.assign target value) =
      ((f.partway (env.put (.var target) v) 1 operands).finish v).demand .pending := by
  simp only [workExpr, atExprStage, partway, AssignStage.ofNumber?, workAssign, pop, hold]

theorem workExpr_unknown {target : VarId} {value : ExprId}
    (hnone : env.get? (.var target) = none) :
    (f.partway env 1 (v :: operands)).workExpr p e (.assign target value) =
      complain (f.partway env 1 operands) (.expr e) (.unknownVariable (p.varName target)) := by
  simp only [workExpr, atExprStage, partway, AssignStage.ofNumber?, workAssign, pop, hnone]

theorem workExpr_test {cond thenExpr elseExpr : ExprId} (hstage : f.exprStage = 0) :
    f.workExpr p e (.choose cond thenExpr elseExpr) = f.evaluate cond 1 := by
  simp only [workExpr, atExprStage, hstage]
  rfl

/-- The side of a conditional that is taken replaces it. -/
theorem workExpr_taken {cond thenExpr elseExpr : ExprId} {b : Bool} (hb : v.asBool = .ok b) :
    (f.partway env 1 (v :: operands)).workExpr p e (.choose cond thenExpr elseExpr) =
      demand { f.partway env 0 operands with expr := some (if b then thenExpr else elseExpr) }
        .pending := by
  simp only [workExpr, atExprStage, partway, BranchStage.ofNumber?, workChoose, pop, hb]

theorem workExpr_not_bool {cond thenExpr elseExpr : ExprId} {c : Complaint}
    (hb : v.asBool = .error c) :
    (f.partway env 1 (v :: operands)).workExpr p e (.choose cond thenExpr elseExpr) =
      complain (f.partway env 1 operands) (.expr cond) c := by
  simp only [workExpr, atExprStage, partway, BranchStage.ofNumber?, workChoose, pop, hb]

variable {callee : ExprId} {args : List ExprId}

theorem workExpr_callee (hstage : f.exprStage = 0) :
    f.workExpr p e (.call callee args) = f.evaluate callee 1 := by
  simp only [workExpr, atExprStage, hstage]
  rfl

/-- At the stage of an argument the machine evaluates it, to go on with the next one. -/
theorem workExpr_arg {j : Nat} {arg : ExprId} (hstage : f.exprStage = j + 1)
    (harg : args[j]? = some arg) :
    f.workExpr p e (.call callee args) = f.evaluate arg (j + 2) := by
  have hat : CallStage.ofNumber? args.length f.exprStage = some (.arg j) := by
    rw [hstage]
    exact CallStage.ofNumber?_arg (List.getElem?_eq_some_iff.1 harg).1
  simp only [workExpr, atExprStage, hat, workCall, harg]
  rfl

/-- The call is made at the stage behind the last argument, and its value is taken at the next. -/
theorem workExpr_invoke {n : Nat} (hn : n = args.length) :
    (f.partway env (args.length + 1) operands).workExpr p e (.call callee args) =
      (f.partway env (args.length + 2) operands, .ok (.call (n + 1))) := by
  have hat : CallStage.ofNumber? args.length (args.length + 1) = some .invoke :=
    CallStage.ofNumber?_invoke args.length
  simp only [workExpr, atExprStage, partway, hat, hn]
  rfl

theorem workExpr_complete :
    (f.partway env (args.length + 2) (v :: operands)).workExpr p e (.call callee args) =
      ((f.partway env (args.length + 2) operands).finish v).demand .pending := by
  have hat : CallStage.ofNumber? args.length (args.length + 2) = some .complete :=
    CallStage.ofNumber?_complete args.length
  simp only [workExpr, atExprStage, partway, hat]
  rfl

end Stages

end Frame

/-- The machine is at a stage of an expression, with operands, and has only written variables and
what is remembered for parts of the expression. -/
def Partway (p : Program) (f : Frame) (e : ExprId) (callers : List Frame) (stage : Nat)
    (operands : List Value) (w : World) (y : State) : Prop :=
  ∃ env, (∀ n, p.From n e → f.env.SameBelow n env) ∧ env.Agrees w.env ∧
    y = ⟨f.partway env stage operands :: callers, w.heap, w.sink⟩

/-- Finishing an expression after its parts. -/
theorem Gives.finish {f : Frame} {e : ExprId} {callers : List Frame} {w : World} {env : Env}
    (hexpr : f.expr = some e) (hbelow : ∀ n, p.From n e → f.env.SameBelow n env)
    (hagrees : env.Agrees w.env) (stage : Nat) (v : Value) :
    Gives p f e callers v w
      ⟨(f.partway env stage f.operands).finish v :: callers, w.heap, w.sink⟩ := by
  refine ⟨env.put (.expr e) v, fun n hn => (hbelow n hn).putExpr hn.le v, hagrees.putExpr e v, ?_⟩
  have hexpr' : (f.partway env stage f.operands).expr = some e := hexpr
  rw [Frame.finish_given hexpr']
  rfl

namespace Evaluator.Simulated

variable {fuel : Nat} {ev : Evaluator} {f : Frame} {e : ExprId} {x : Expr} {scope : ScopeId}

/-- **A part of an expression** is evaluated, and the expression is resumed at a stage. -/
theorem part (h : ev.Simulated p fuel) (hp : p.WellFormed) (hexpr : f.expr = some e)
    (hx : p.expr? e = some x) {c : ExprId} (hc : c ∈ x.parts) {stage : Nat}
    (hworks : f.Works p (f.evaluate c stage)) (hscope : p.scopeOf? f.stmt f.scope = some scope)
    (callers : List Frame) (w : World) (hagrees : f.env.Agrees w.env) :
    Simulates p 1 (fuel + 1) ⟨f :: callers, w.heap, w.sink⟩ (ev.expr scope c w)
      (fun v w' y => Partway p f e callers stage (v :: f.operands) w' y) := by
  have heval := Frame.eval_of_expr_some hexpr c stage
  have hexpr' : (f.eval c stage).expr = some c := by rw [heval]
  have hstage' : (f.eval c stage).exprStage = 0 := by rw [heval]
  have hscope' : p.scopeOf? (f.eval c stage).stmt (f.eval c stage).scope = some scope := by
    rw [heval]
    exact hscope
  have henv : (f.eval c stage).env = f.env := by rw [heval]
  have hsub := h.expr callers w hexpr' hstage' (hp.part hx hc) hscope' (by rw [henv]; exact hagrees)
  refine .step (Frame.Works.takes_pending hworks) (hsub.imp ?_)
  rintro v w' y ⟨env, hbelow, hagrees', rfl⟩
  refine ⟨env, fun n hn => ?_, hagrees', ?_⟩
  · rw [← henv]
    exact hbelow n (hn.part hx hc)
  · rw [Frame.eval_given hexpr]

/-- A condition, of which the value is looked at in the next step. -/
theorem condition {y : State} {w : World} {least k : Nat} {cond : ExprId}
    {Q : Value → World → State → Prop} (h : Simulates p least k y (ev.expr scope cond w) Q)
    (hfails : ∀ v w' z c, Q v w' z → v.asBool = .error c →
      z.Fails p (.user (.expr cond) c) w'.heap w'.sink) :
    Simulates p least k y (ev.condition scope cond w)
      (fun b w' z => ∃ v, v.asBool = .ok b ∧ Q v w' z) := by
  refine h.bindSame fun v w' z hQ => ?_
  refine .ofExcept (fun b hb => .result ⟨v, hb, hQ⟩) fun c hc => hfails v w' z c hQ hc

/-- Arguments are evaluated from left to right, on top of the operands that are there. -/
theorem arguments (h : ev.Simulated p fuel) (hp : p.WellFormed) {callee : ExprId}
    {args : List ExprId} (done todo : List ExprId) (hargs : args = done ++ todo)
    (hx : p.expr? e = some (.call callee args)) (hexpr : f.expr = some e)
    (hstage : f.exprStage = done.length + 1) (hscope : p.scopeOf? f.stmt f.scope = some scope)
    (callers : List Frame) (w : World) (hagrees : f.env.Agrees w.env) :
    Simulates p 0 fuel ⟨f :: callers, w.heap, w.sink⟩ (ev.exprs scope todo w)
      (fun vs w' y => vs.length = todo.length ∧
        Partway p f e callers (args.length + 1) (vs.reverse ++ f.operands) w' y) := by
  induction todo generalizing done f w with
  | nil =>
    refine .result ⟨rfl, f.env, fun n _ => .refl n f.env, hagrees, ?_⟩
    rw [hargs, List.append_nil, ← hstage]
    rfl
  | cons arg todo ih =>
    have harg : args[done.length]? = some arg := by
      rw [hargs, List.getElem?_append_right (Nat.le_refl _), Nat.sub_self]
      rfl
    have hmem : arg ∈ (Expr.call callee args).parts :=
      List.mem_cons_of_mem _ (List.mem_of_getElem? harg)
    have hworks := Frame.works_expr hexpr hx
    rw [Frame.workExpr_arg hstage harg] at hworks
    have hfirst := h.part hp hexpr hx hmem hworks hscope callers w hagrees
    refine hfirst.lessFuel.bindSame ?_
    rintro v w' y ⟨env, hbelow, hagrees', rfl⟩
    have hrest := ih (f := f.partway env (done.length + 2) (v :: f.operands))
      (done ++ [arg]) (by rw [hargs, List.append_assoc]; rfl) hexpr
      (by rw [List.length_append]; rfl) hscope w' hagrees'
    refine hrest.bindSame ?_
    rintro vs w'' z ⟨hlength, env', hbelow', hagrees'', rfl⟩
    refine .result ⟨congrArg Nat.succ hlength, env', fun n hn => ?_, hagrees'', ?_⟩
    · exact (hbelow n hn).trans (hbelow' n hn)
    · rw [List.reverse_cons, List.append_assoc]
      rfl

/-- The callee and the arguments of a call are evaluated, the function is called, and its value is
that of the call. -/
theorem evalCall (h : ev.Simulated p fuel) (hp : p.WellFormed) {callee : ExprId}
    {args : List ExprId} (hx : p.expr? e = some (.call callee args)) (hexpr : f.expr = some e)
    (hstage : f.exprStage = 0) (hscope : p.scopeOf? f.stmt f.scope = some scope)
    (callers : List Frame) (w : World) (hagrees : f.env.Agrees w.env) :
    Simulates p 1 (fuel + 1) ⟨f :: callers, w.heap, w.sink⟩ ((do
        let fn ← ev.expr scope callee
        let vs ← ev.exprs scope args
        ev.call p (.expr e) scope fn vs : Eval Value) w) (Gives p f e callers) := by
  have hworks := Frame.works_expr hexpr hx
  rw [Frame.workExpr_callee hstage] at hworks
  have hcallee := h.part hp hexpr hx List.mem_cons_self hworks hscope callers w hagrees
  refine hcallee.bindLess ?_
  rintro fn w₁ y₁ ⟨env₁, hbelow₁, hagrees₁, rfl⟩
  have hargs := h.arguments hp (f := f.partway env₁ 1 (fn :: f.operands))
    [] args rfl hx hexpr rfl hscope callers w₁ hagrees₁
  refine hargs.bindSame ?_
  rintro vs w₂ y₂ ⟨hlength, env₂, hbelow₂, hagrees₂, rfl⟩
  have hbusy : (f.partway env₂ (args.length + 2)
      (vs.reverse ++ fn :: f.operands)).isExhausted = false := by
    simp [Frame.isExhausted, Frame.partway, hexpr]
  have hcursor : (f.partway env₂ (args.length + 2)
      (vs.reverse ++ fn :: f.operands)).cursor = .expr e := by
    simp only [Frame.cursor, Frame.partway, hexpr]
  have hworks₂ := Frame.works_expr
    (f := f.partway env₂ (args.length + 1) (vs.reverse ++ fn :: f.operands)) hexpr hx
  rw [Frame.workExpr_invoke hlength] at hworks₂
  have hoperands : (f.partway env₂ (args.length + 2)
      (vs.reverse ++ fn :: f.operands)).operands = vs.reverse ++ fn :: f.operands := rfl
  have hcall := @call p fuel ev h hp _ _ callers w₂ scope fn vs f.operands hworks₂ hoperands
    hscope hbusy
  rw [hcursor] at hcall
  refine hcall.lessFuel.andThen ?_
  rintro v w₃ y₃ ⟨henv₃, rfl⟩
  have hworks₃ := Frame.works_expr
    (f := f.partway env₂ (args.length + 2) (v :: f.operands)) hexpr hx
  rw [Frame.workExpr_complete] at hworks₃
  refine ⟨1, _, .one (Frame.Works.takes_pending hworks₃),
    Gives.finish hexpr (fun n hn => (hbelow₁ n hn).trans (hbelow₂ n hn)) ?_ _ v⟩
  rw [henv₃]
  exact hagrees₂

/-- An expression that is finished by one step. It may have changed a variable. -/
theorem finished {env env' : Env} {w : World} {v : Value} (hexpr : f.expr = some e)
    (hworks : f.Works p (((f.partway env f.exprStage f.operands).finish v).demand .pending))
    (hbelow : ∀ n, f.env.SameBelow n env) (hagrees : env.Agrees env') (callers : List Frame) :
    Simulates p 1 (fuel + 1) ⟨f :: callers, w.heap, w.sink⟩
      (some (.ok v, { w with env := env' })) (Gives p f e callers) := by
  refine .step (Frame.Works.takes_pending hworks) (.result ?_)
  exact Gives.finish (w := { w with env := env' }) hexpr (fun n _ => hbelow n) hagrees f.exprStage v

/-- The value of an assignment is stored in a variable that has one. -/
theorem evalAssign (h : ev.Simulated p fuel) (hp : p.WellFormed) {target : VarId} {value : ExprId}
    (hx : p.expr? e = some (.assign target value)) (hexpr : f.expr = some e)
    (hstage : f.exprStage = 0) (hscope : p.scopeOf? f.stmt f.scope = some scope)
    (callers : List Frame) (w : World) (hagrees : f.env.Agrees w.env) :
    Simulates p 1 (fuel + 1) ⟨f :: callers, w.heap, w.sink⟩
      ((do
        let v ← ev.expr scope value
        assign p e target v : Eval Value) w) (Gives p f e callers) := by
  have hworks := Frame.works_expr hexpr hx
  rw [Frame.workExpr_value hstage] at hworks
  have hvalue := h.part hp hexpr hx List.mem_cons_self hworks hscope callers w hagrees
  refine hvalue.bindLess ?_
  rintro v w' y ⟨env, hbelow, hagrees', rfl⟩
  have hworks' := Frame.works_expr (f := f.partway env 1 (v :: f.operands)) hexpr hx
  have hget := hagrees' target
  cases hold : w'.env.get? (.var target) with
  | none =>
    have hassign : assign p e target v w' =
        some (.error (.user (.expr e) (.unknownVariable (p.varName target))), w') := by
      simp only [assign, Bind.bind, Eval.world, hold]
      rfl
    rw [hassign]
    rw [Frame.workExpr_unknown (hget.trans hold)] at hworks'
    exact .failure (Frame.Works.fails hworks')
  | some old =>
    have hassign : assign p e target v w' =
        some (.ok v, { w' with env := w'.env.put (.var target) v }) := by
      simp only [assign, Bind.bind, Eval.world, hold]
      rfl
    rw [hassign]
    rw [Frame.workExpr_store (hget.trans hold)] at hworks'
    have hdone : Simulates p 1 (fuel + 1)
        ⟨f.partway env 1 (v :: f.operands) :: callers, w'.heap, w'.sink⟩
        (some (.ok v, { w' with env := w'.env.put (.var target) v })) (Gives p f e callers) :=
      .step (Frame.Works.takes_pending hworks') (.result
        (Gives.finish (w := { w' with env := w'.env.put (.var target) v }) hexpr
          (fun n hn => (hbelow n hn).putVar target v) (hagrees'.putVar target v) 1 v))
    exact hdone.lessFuel

/-- A conditional tests its condition and evaluates one of its sides in its place. -/
theorem evalChoose (h : ev.Simulated p fuel) (hp : p.WellFormed) {cond thenExpr elseExpr : ExprId}
    (hx : p.expr? e = some (.choose cond thenExpr elseExpr)) (hexpr : f.expr = some e)
    (hstage : f.exprStage = 0) (hscope : p.scopeOf? f.stmt f.scope = some scope)
    (callers : List Frame) (w : World) (hagrees : f.env.Agrees w.env) :
    Simulates p 1 (fuel + 1) ⟨f :: callers, w.heap, w.sink⟩
      ((do
        let b ← ev.condition scope cond
        ev.expr scope (if b then thenExpr else elseExpr) : Eval Value) w)
      (Gives p f e callers) := by
  have hworks := Frame.works_expr hexpr hx
  rw [Frame.workExpr_test hstage] at hworks
  have hcond := h.part hp hexpr hx List.mem_cons_self hworks hscope callers w hagrees
  have hworks' := fun (env : Env) (v : Value) =>
    Frame.works_expr (f := f.partway env 1 (v :: f.operands)) hexpr hx
  refine (condition hcond ?_).bindLess ?_
  · rintro v w' z c ⟨env, -, -, rfl⟩ hc
    have hfails := hworks' env v
    rw [Frame.workExpr_not_bool hc] at hfails
    exact Frame.Works.fails hfails
  · rintro b w' z ⟨v, hb, env, hbelow, hagrees', rfl⟩
    have htakes := hworks' env v
    rw [Frame.workExpr_taken hb] at htakes
    have hmem : (if b then thenExpr else elseExpr) ∈
        (Expr.choose cond thenExpr elseExpr).parts := by
      cases b <;> simp [Expr.parts]
    -- The side that is taken is the current expression now, around which the same ones wait.
    have hside := h.expr (f := { f.partway env 0 f.operands with
      expr := some (if b then thenExpr else elseExpr) }) callers w' rfl rfl (hp.part hx hmem) hscope
      hagrees'
    have hdone : Simulates p 1 (fuel + 1)
        ⟨f.partway env 1 (v :: f.operands) :: callers, w'.heap, w'.sink⟩
        (ev.expr scope (if b then thenExpr else elseExpr) w') (Gives p f e callers) := by
      refine .step (Frame.Works.takes_pending htakes) (hside.imp ?_)
      rintro u w'' y ⟨env', hbelow', hagrees'', rfl⟩
      exact ⟨env', fun n hn => (hbelow n hn).trans (hbelow' n (hn.part hx hmem)), hagrees'', rfl⟩
    exact hdone.lessFuel

/-- An expression without parts has its value at once, or is complained about. -/
theorem evalLeaf (hexpr : f.expr = some e) (hstage : f.exprStage = 0) (hx : p.expr? e = some x)
    (hparts : x.parts = []) (callers : List Frame) (w : World) (hagrees : f.env.Agrees w.env) :
    Simulates p 1 (fuel + 1) ⟨f :: callers, w.heap, w.sink⟩ (ev.evalExpr p scope e w)
      (Gives p f e callers) := by
  have hsame : ∀ n, f.env.SameBelow n f.env := fun n => .refl n f.env
  have hworks := Frame.works_expr hexpr hx
  rw [Frame.workExpr_leaf hstage hparts] at hworks
  unfold Evaluator.evalExpr
  rw [hx]
  cases x with
  | literal s => exact finished hexpr hworks hsame hagrees callers
  | name name => exact finished hexpr hworks hsame hagrees callers
  | function id => exact finished hexpr hworks hsame hagrees callers
  | declare y =>
    exact finished hexpr hworks (fun n => (hsame n).putVar y .uninitialized)
      (hagrees.putVar y .uninitialized) callers
  | closure params body => exact .failure (Frame.Works.fails hworks)
  | var y =>
    dsimp only
    cases hv : f.env.get? (.var y) with
    | none =>
      have hread : readVar p e y w =
          Eval.complain (.expr e) (.unknownVariable (p.varName y)) w := by
        simp only [readVar, Bind.bind, Eval.world, (hagrees y).symm.trans hv]
      have hleaf : f.workLeaf p e (.var y) .eval =
          f.complain (.expr e) (.unknownVariable (p.varName y)) := by
        simp only [Frame.workLeaf, Frame.leafValue, hv]
        rfl
      rw [hread]
      rw [hleaf] at hworks
      exact .failure (Frame.Works.fails hworks)
    | some v =>
      have hread : readVar p e y w = Eval.ofExcept (.expr e) v.read w := by
        simp only [readVar, Bind.bind, Eval.world, (hagrees y).symm.trans hv]
      rw [hread]
      refine .ofExcept (fun u hu => ?_) fun c hc => ?_
      · have hleaf : f.workLeaf p e (.var y) .eval = (f.finish u).demand .pending := by
          simp only [Frame.workLeaf, Frame.leafValue, hv, hu]
          rfl
        rw [hleaf] at hworks
        exact finished hexpr hworks hsame hagrees callers
      · have hleaf : f.workLeaf p e (.var y) .eval = f.complain (.expr e) c := by
          simp only [Frame.workLeaf, Frame.leafValue, hv, hc]
          rfl
        rw [hleaf] at hworks
        exact Frame.Works.fails hworks
  | _ => cases hparts

/-- **Expressions** of all kinds. -/
theorem evalExpr (h : ev.Simulated p fuel) (hp : p.WellFormed) (hexpr : f.expr = some e)
    (hstage : f.exprStage = 0) (hx : p.expr? e = some x)
    (hscope : p.scopeOf? f.stmt f.scope = some scope) (callers : List Frame) (w : World)
    (hagrees : f.env.Agrees w.env) :
    Simulates p 1 (fuel + 1) ⟨f :: callers, w.heap, w.sink⟩ (ev.evalExpr p scope e w)
      (Gives p f e callers) := by
  cases x with
  | assign target value =>
    unfold Evaluator.evalExpr
    rw [hx]
    exact h.evalAssign hp hx hexpr hstage hscope callers w hagrees
  | call callee args =>
    unfold Evaluator.evalExpr
    rw [hx]
    exact h.evalCall hp hx hexpr hstage hscope callers w hagrees
  | choose cond thenExpr elseExpr =>
    unfold Evaluator.evalExpr
    rw [hx]
    exact h.evalChoose hp hx hexpr hstage hscope callers w hagrees
  | _ => exact evalLeaf hexpr hstage hx rfl callers w hagrees

end Evaluator.Simulated

end TreeMachine
