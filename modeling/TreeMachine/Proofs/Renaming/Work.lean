import TreeMachine.Execution.Expression
import TreeMachine.Execution.Statement
import TreeMachine.Proofs.Renaming.Values

/-!
# Work on renamed activations

A unit of work does the same to two activations that are the same up to a renaming of handles: it
demands the same or fails in the same way, and leaves activations that are the same up to the same
renaming. This is shown for each way to put work together and then for every statement and
expression (`Frame.Renamed.workStmt`, `Frame.Renamed.workExpr`).

This relates two runs of the same function, so it is not an instance of the rules that single runs
of it obey. Its lemmas have the form of the combinators instead: if the continuations take renamed
activations to renamed work, then so does the combined work. A statement with stages is then gone
through stage by stage, where each of the two activations is at the same one, since stages are not
renamed.

Units of work neither allocate nor read objects, so no heap occurs here and the renaming stays what
it is. Only the comparison of a case with the selected value needs that the renaming is one-to-one.
-/

namespace TreeMachine

/-- What is demanded, or how the work failed, is the same up to a renaming. -/
inductive Demand.Renamed (ρ : Renaming) : Except Fault Demand → Except Fault Demand → Prop
  | same {r : Except Fault Demand} (hr : ∀ v, r ≠ .ok (.leave v)) : Renamed ρ r r
  | leave {v v' : Value} (hv : v.Renamed ρ v') : Renamed ρ (.ok (.leave v)) (.ok (.leave v'))

/-- What two units of work leave behind is the same up to a renaming. -/
structure Work.Renamed (ρ : Renaming) (w w' : Work) : Prop where
  frame : w.1.Renamed ρ w'.1
  result : Demand.Renamed ρ w.2 w'.2

namespace Frame.Renamed

variable {ρ : Renaming} {f f' : Frame}

/-! ### Ways to put work together -/

theorem demand (h : f.Renamed ρ f') {d : Demand} (hd : ∀ v, d ≠ .leave v) :
    Work.Renamed ρ (f.demand d) (f'.demand d) :=
  ⟨h, .same fun v hv => hd v (Except.ok.inj hv)⟩

theorem complain (h : f.Renamed ρ f') (place : Place) (c : Complaint) :
    Work.Renamed ρ (f.complain place c) (f'.complain place c) :=
  ⟨h, .same nofun⟩

theorem defect (h : f.Renamed ρ f') (place : Place) (d : Defect) :
    Work.Renamed ρ (f.defect place d) (f'.defect place d) :=
  ⟨h, .same nofun⟩

theorem evaluate (h : f.Renamed ρ f') (e : ExprId) (resume : Nat) :
    Work.Renamed ρ (f.evaluate e resume) (f'.evaluate e resume) :=
  (h.eval e resume).demand nofun

theorem skip (h : f.Renamed ρ f') (resume : Nat) :
    (f.skip resume).1.Renamed ρ (f'.skip resume).1 ∧
      (f'.skip resume).2 = (f.skip resume).2 ∧ ∀ v, (f.skip resume).2 ≠ .leave v := by
  rw [Frame.skip, Frame.skip]
  split
  · exact ⟨h, rfl, nofun⟩
  · exact ⟨{ h with stage := rfl }, rfl, nofun⟩

theorem descend (h : f.Renamed ρ f') (child : Option StmtId) (resume : Nat) :
    (f.descend child resume).1.Renamed ρ (f'.descend child resume).1 ∧
      (f'.descend child resume).2 = (f.descend child resume).2 ∧
      ∀ v, (f.descend child resume).2 ≠ .leave v := by
  cases hs : f.stmt with
  | none =>
    rw [descend_of_stmt_none hs, descend_of_stmt_none (h.stmt.trans hs)]
    exact h.skip resume
  | some s =>
    cases child with
    | none => exact h.skip resume
    | some c =>
      rw [descend_some hs, descend_some (h.stmt.trans hs)]
      exact ⟨{ h.pushWaiting s resume with stmt := rfl, stage := rfl }, rfl, nofun⟩

theorem run (h : f.Renamed ρ f') (child : Option StmtId) (resume : Nat) :
    Work.Renamed ρ (f.run child resume) (f'.run child resume) := by
  obtain ⟨hf, hd, hne⟩ := h.descend child resume
  rw [Frame.run, Frame.run]
  dsimp only
  rw [hd]
  exact hf.demand hne

theorem send (h : f.Renamed ρ f') (m : Message) {collection collection' : Value}
    (hc : collection.Renamed ρ collection') {state state' : Option Value}
    (hs : Option.Rel (Value.Renamed ρ) state state') :
    Work.Renamed ρ (f.send m collection state) (f'.send m collection' state') := by
  obtain ⟨hf, hn⟩ := h.pushMessage m hc hs
  rw [Frame.send, Frame.send]
  dsimp only
  rw [hn]
  exact hf.demand nofun

theorem pop (h : f.Renamed ρ f') (place : Place) {next next' : Value → Frame → Work}
    (hnext : ∀ v v' g g', v.Renamed ρ v' → Frame.Renamed ρ g g' →
      Work.Renamed ρ (next v g) (next' v' g')) :
    Work.Renamed ρ (f.pop place next) (f'.pop place next') := by
  have hops := h.operands
  rw [Frame.pop, Frame.pop]
  cases ho : f.operands with
  | nil =>
    rw [ho] at hops
    cases ho' : f'.operands with
    | nil => exact h.defect place .operandUnderflow
    | cons v' rest' => rw [ho'] at hops; cases hops
  | cons v rest =>
    rw [ho] at hops
    cases ho' : f'.operands with
    | nil => rw [ho'] at hops; cases hops
    | cons v' rest' =>
      rw [ho'] at hops
      cases hops with
      | cons hv hrest => exact hnext v v' _ _ hv (h.setOperands hrest)

theorem popBool (h : f.Renamed ρ f') (place : Place) {next next' : Bool → Frame → Work}
    (hnext : ∀ b g g', Frame.Renamed ρ g g' → Work.Renamed ρ (next b g) (next' b g')) :
    Work.Renamed ρ (f.popBool place next) (f'.popBool place next') := by
  refine h.pop place fun v v' g g' hv hg => ?_
  rw [hv.asBool]
  split
  · exact hnext _ g g' hg
  · exact hg.complain place _

theorem atStage {σ : Type} (h : f.Renamed ρ f') (id : StmtId) (kind : StmtKind)
    (ofNumber? : Nat → Option σ) {work : Frame → σ → Work}
    (hwork : ∀ s, Work.Renamed ρ (work f s) (work f' s)) :
    Work.Renamed ρ (f.atStage id kind (ofNumber? f.stage) work)
      (f'.atStage id kind (ofNumber? f'.stage) work) := by
  unfold Frame.atStage
  rw [h.stage]
  split
  · exact hwork _
  · exact h.defect _ _

theorem atExprStage {σ : Type} (h : f.Renamed ρ f') (id : ExprId) (e : Expr)
    (ofNumber? : Nat → Option σ) {work : Frame → σ → Work}
    (hwork : ∀ s, Work.Renamed ρ (work f s) (work f' s)) :
    Work.Renamed ρ (f.atExprStage id e (ofNumber? f.exprStage) work)
      (f'.atExprStage id e (ofNumber? f'.exprStage) work) := by
  unfold Frame.atExprStage
  rw [h.exprStage]
  split
  · exact hwork _
  · exact h.defect _ _

/-! ### Expressions -/

theorem workLeaf (h : f.Renamed ρ f') (p : Program) (id : ExprId) (e : Expr) (s : LeafStage) :
    Work.Renamed ρ (f.workLeaf p id e s) (f'.workLeaf p id e s) := by
  have hvalue : (∃ c, f.leafValue p e = .error c ∧ f'.leafValue p e = .error c) ∨
      ∃ v v' g g', f.leafValue p e = .ok (v, g) ∧ f'.leafValue p e = .ok (v', g') ∧
        v.Renamed ρ v' ∧ Frame.Renamed ρ g g' := by
    cases e with
    | var x =>
      simp only [Frame.leafValue]
      rcases h.env.get? (.var x) with ⟨hn, hn'⟩ | ⟨v, v', hv, hv', hr⟩
      · rw [hn, hn']
        exact .inl ⟨_, rfl, rfl⟩
      · rw [hv, hv']
        rcases hr.read with ⟨e, he, he'⟩ | ⟨hok, hok'⟩
        · exact .inl ⟨e, by simp only [he]; rfl, by simp only [he']; rfl⟩
        · exact .inr ⟨v, v', f, f', by simp only [hok]; rfl, by simp only [hok']; rfl, hr, h⟩
    | declare x =>
      exact .inr ⟨_, _, _, _, rfl, rfl, .same rfl, { h with env := h.env.declare x }⟩
    | literal s => exact .inr ⟨_, _, _, _, rfl, rfl, .same rfl, h⟩
    | name name => exact .inr ⟨_, _, _, _, rfl, rfl, .same rfl, h⟩
    | function id => exact .inr ⟨_, _, _, _, rfl, rfl, .same rfl, h⟩
    | closure params body => exact .inl ⟨_, rfl, rfl⟩
    | assign target value => exact .inl ⟨_, rfl, rfl⟩
    | call callee args => exact .inl ⟨_, rfl, rfl⟩
    | choose cond thenExpr elseExpr => exact .inl ⟨_, rfl, rfl⟩
  cases s with
  | eval =>
    rw [Frame.workLeaf, Frame.workLeaf]
    rcases hvalue with ⟨c, hc, hc'⟩ | ⟨v, v', g, g', hg, hg', hv, hr⟩
    · rw [hc, hc']
      exact h.complain _ _
    · rw [hg, hg']
      exact (hr.finish hv).demand nofun

theorem workAssign (h : f.Renamed ρ f') (p : Program) (id : ExprId) (target : VarId)
    (value : ExprId) (s : AssignStage) :
    Work.Renamed ρ (f.workAssign p id target value s) (f'.workAssign p id target value s) := by
  cases s with
  | eval => exact h.evaluate value _
  | store =>
    rw [Frame.workAssign, Frame.workAssign]
    refine h.pop (.expr id) fun v v' g g' hv hg => ?_
    rcases hg.env.get? (.var target) with ⟨hn, hn'⟩ | ⟨x, x', hx, hx', -⟩
    · rw [hn, hn']
      exact hg.complain _ _
    · rw [hx, hx']
      exact ((hg.putEnv (.var target) hv).finish hv).demand nofun

theorem workChoose (h : f.Renamed ρ f') (id cond thenExpr elseExpr : ExprId) (s : BranchStage) :
    Work.Renamed ρ (f.workChoose id cond thenExpr elseExpr s)
      (f'.workChoose id cond thenExpr elseExpr s) := by
  cases s with
  | test => exact h.evaluate cond _
  | branch =>
    rw [Frame.workChoose, Frame.workChoose]
    refine h.pop (.expr id) fun v v' g g' hv hg => ?_
    rw [hv.asBool]
    split
    · rename_i b _
      have hbranch : Frame.Renamed ρ
          { g with expr := some (if b then thenExpr else elseExpr), exprStage := 0 }
          { g' with expr := some (if b then thenExpr else elseExpr), exprStage := 0 } :=
        { hg with expr := rfl, exprStage := rfl }
      exact hbranch.demand nofun
    · exact hg.complain _ _

theorem workCall (h : f.Renamed ρ f') (id callee : ExprId) (args : List ExprId) (s : CallStage) :
    Work.Renamed ρ (f.workCall id callee args s) (f'.workCall id callee args s) := by
  cases s with
  | callee => exact h.evaluate callee _
  | arg i =>
    rw [Frame.workCall, Frame.workCall]
    split
    · exact h.evaluate _ _
    · rw [h.exprStage]
      exact h.defect _ _
  | invoke =>
    have hcall : Frame.Renamed ρ
        { f with exprStage := CallStage.number args.length .complete }
        { f' with exprStage := CallStage.number args.length .complete } :=
      { h with exprStage := rfl }
    exact hcall.demand nofun
  | complete =>
    rw [Frame.workCall, Frame.workCall]
    exact h.pop (.expr id) fun v v' g g' hv hg => (hg.finish hv).demand nofun

theorem workExpr (h : f.Renamed ρ f') (p : Program) (id : ExprId) (e : Expr) :
    Work.Renamed ρ (f.workExpr p id e) (f'.workExpr p id e) := by
  cases e with
  | assign target value =>
    exact h.atExprStage id _ AssignStage.ofNumber? (h.workAssign p id target value)
  | choose cond thenExpr elseExpr =>
    exact h.atExprStage id _ BranchStage.ofNumber? (h.workChoose id cond thenExpr elseExpr)
  | call callee args =>
    exact h.atExprStage id _ (CallStage.ofNumber? args.length) (h.workCall id callee args)
  | literal s => exact h.atExprStage id _ LeafStage.ofNumber? (h.workLeaf p id _)
  | var x => exact h.atExprStage id _ LeafStage.ofNumber? (h.workLeaf p id _)
  | declare x => exact h.atExprStage id _ LeafStage.ofNumber? (h.workLeaf p id _)
  | name name => exact h.atExprStage id _ LeafStage.ofNumber? (h.workLeaf p id _)
  | function f => exact h.atExprStage id _ LeafStage.ofNumber? (h.workLeaf p id _)
  | closure params body => exact h.atExprStage id _ LeafStage.ofNumber? (h.workLeaf p id _)

/-! ### Statements -/

theorem withCollection (h : f.Renamed ρ f') (id : StmtId) (iterator : ExprId)
    {next next' : Value → Work}
    (hnext : ∀ v v', v.Renamed ρ v' → Work.Renamed ρ (next v) (next' v')) :
    Work.Renamed ρ (f.withCollection id iterator next) (f'.withCollection id iterator next') := by
  rw [Frame.withCollection, Frame.withCollection]
  rcases h.env.get? (.expr iterator) with ⟨hn, hn'⟩ | ⟨v, v', hv, hv', hr⟩
  · rw [hn, hn']
    exact h.defect _ _
  · rw [hv, hv']
    exact hnext v v' hr

theorem withLoopState (h : f.Renamed ρ f') (id : StmtId) {next next' : Value → Work}
    (hnext : ∀ v v', v.Renamed ρ v' → Work.Renamed ρ (next v) (next' v')) :
    Work.Renamed ρ (f.withLoopState id next) (f'.withLoopState id next') := by
  rw [Frame.withLoopState, Frame.withLoopState]
  rcases h.env.get? (.stmt id) with ⟨hn, hn'⟩ | ⟨v, v', hv, hv', hr⟩
  · rw [hn, hn']
    exact h.defect _ _
  · rw [hv, hv']
    exact hnext v v' hr

theorem setStage (h : f.Renamed ρ f') (stage : Nat) :
    Frame.Renamed ρ { f with stage := stage } { f' with stage := stage } :=
  { h with stage := rfl }

theorem workExprStmt (h : f.Renamed ρ f') (e : ExprId) (s : ExprStmtStage) :
    Work.Renamed ρ (f.workExprStmt e s) (f'.workExprStmt e s) := by
  cases s with
  | eval => exact h.evaluate e _
  | discard =>
    have htail : ∀ {vs vs' : List Value}, List.Forall₂ (Value.Renamed ρ) vs vs' →
        List.Forall₂ (Value.Renamed ρ) vs.tail vs'.tail
      | _, _, .nil => .nil
      | _, _, .cons _ hrest => hrest
    exact (h.setOperands (htail h.operands)).demand nofun

theorem workLoop (h : f.Renamed ρ f') (cond : ExprId) (body : Option StmtId) (testFirst : Bool)
    (s : LoopStage) :
    Work.Renamed ρ (f.workLoop cond body testFirst s) (f'.workLoop cond body testFirst s) := by
  cases s with
  | enter =>
    rw [Frame.workLoop, Frame.workLoop]
    split
    · exact (h.setStage _).demand nofun
    · exact h.run body _
  | test => exact h.evaluate cond _
  | check =>
    rw [Frame.workLoop, Frame.workLoop]
    refine h.popBool (.expr cond) fun b g g' hg => ?_
    split
    · exact hg.run body _
    · exact hg.demand nofun

theorem takeLoopState (h : f.Renamed ρ f') (id : StmtId) (iterator : ExprId) :
    Work.Renamed ρ (f.takeLoopState id iterator) (f'.takeLoopState id iterator) := by
  refine h.pop (.stmt id) fun v v' g g' hv hg => ?_
  have hput := hg.putEnv (.stmt id) hv
  refine hput.withCollection id iterator fun c c' hc => ?_
  exact (hput.setStage _).send .valid hc (.some hv)

theorem askAtState (h : f.Renamed ρ f') (id : StmtId) (iterator : ExprId) (m : Message)
    (resume : ForallStage) :
    Work.Renamed ρ (f.askAtState id iterator m resume) (f'.askAtState id iterator m resume) := by
  refine h.withCollection id iterator fun c c' hc => ?_
  refine h.withLoopState id fun v v' hv => ?_
  exact (h.setStage _).send m hc (.some hv)

theorem workForall (h : f.Renamed ρ f') (id : StmtId) (index : VarId) (iterator : ExprId)
    (body : Option StmtId) (s : ForallStage) :
    Work.Renamed ρ (f.workForall id index iterator body s)
      (f'.workForall id index iterator body s) := by
  cases s with
  | evalIterator => exact h.evaluate iterator _
  | start =>
    rw [Frame.workForall, Frame.workForall]
    refine h.pop (.stmt id) fun v v' g g' hv hg => ?_
    exact ((hg.putEnv (.expr iterator) hv).setStage _).send .start hv .none
  | valid => exact h.takeLoopState id iterator
  | check =>
    rw [Frame.workForall, Frame.workForall]
    refine h.popBool (.stmt id) fun b g g' hg => ?_
    split
    · exact hg.askAtState id iterator .index .body
    · exact hg.demand nofun
  | body =>
    rw [Frame.workForall, Frame.workForall]
    refine h.pop (.stmt id) fun v v' g g' hv hg => ?_
    exact (hg.putEnv (.var index) hv).run body _
  | next => exact h.askAtState id iterator .next .advance
  | advance => exact h.takeLoopState id iterator

theorem workBranch (h : f.Renamed ρ f') (cond : ExprId) (thenBody elseBody : Option StmtId)
    (s : BranchStage) :
    Work.Renamed ρ (f.workBranch cond thenBody elseBody s)
      (f'.workBranch cond thenBody elseBody s) := by
  cases s with
  | test => exact h.evaluate cond _
  | branch =>
    rw [Frame.workBranch, Frame.workBranch]
    exact h.popBool (.expr cond) fun b g g' hg => (hg.setStage 0).run _ 0

theorem workSelect (h : f.Renamed ρ f') (id : StmtId) (selector : ExprId) (arms : Option StmtId)
    (s : SelectStage) :
    Work.Renamed ρ (f.workSelect id selector arms s) (f'.workSelect id selector arms s) := by
  cases s with
  | eval => exact h.evaluate selector _
  | dispatch =>
    rw [Frame.workSelect, Frame.workSelect]
    refine h.pop (.stmt id) fun v v' g g' hv hg => ?_
    exact ((hg.putEnv (.stmt id) hv).setStage 0).run arms 0

theorem compareCase (hρ : ρ.OneToOne) (h : f.Renamed ρ f') (id select : StmtId)
    (cases : List ExprId) (body : Option StmtId) (i : Nat) (case : ExprId) :
    Work.Renamed ρ (f.compareCase id select cases body i case)
      (f'.compareCase id select cases body i case) := by
  refine h.pop (.stmt id) fun v v' g g' hv hg => ?_
  rcases hg.env.get? (.stmt select) with ⟨hn, hn'⟩ | ⟨x, x', hx, hx', hr⟩
  · rw [hn, hn']
    exact hg.defect _ _
  · rw [hx, hx']
    dsimp only
    rw [Primitive.equal_renamed hρ hv hr]
    split
    · exact hg.complain _ _
    · exact hg.run body _
    · split
      · exact hg.evaluate _ _
      · exact hg.demand nofun

theorem popWaiting (h : f.Renamed ρ f') :
    f'.popWaiting.1 = f.popWaiting.1 ∧ f.popWaiting.2.Renamed ρ f'.popWaiting.2 := by
  rw [Frame.popWaiting, Frame.popWaiting, h.waiting, h.resumes]
  split
  · exact ⟨rfl, h⟩
  · exact ⟨rfl, { h with waiting := rfl, resumes := rfl }⟩
  · exact ⟨rfl, { h with waiting := rfl, resumes := rfl }⟩

theorem workArm (hρ : ρ.OneToOne) (h : f.Renamed ρ f') (id select : StmtId)
    (cases : List ExprId) (body : Option StmtId) (s : ArmStage) :
    Work.Renamed ρ (f.workArm id select cases body s) (f'.workArm id select cases body s) := by
  cases s with
  | enter =>
    simp only [Frame.workArm]
    split
    · exact h.run body _
    · exact h.evaluate _ _
  | compare i =>
    simp only [Frame.workArm]
    split
    · exact h.compareCase hρ id select cases body i _
    · rw [h.stage]
      exact h.defect _ _
  | leave =>
    obtain ⟨hw, hf⟩ := h.popWaiting
    simp only [Frame.workArm]
    rw [hw]
    split
    · have hselect : Frame.Renamed ρ { f.popWaiting.2 with stmt := some select }
          { f'.popWaiting.2 with stmt := some select } := { hf with stmt := rfl }
      exact hselect.demand nofun
    · exact hf.defect _ _

theorem workReturn (h : f.Renamed ρ f') (id : StmtId) (value : Option ExprId) (s : ReturnStage) :
    Work.Renamed ρ (f.workReturn id value s) (f'.workReturn id value s) := by
  cases s with
  | eval =>
    simp only [Frame.workReturn]
    split
    · exact h.evaluate _ _
    · exact ((h.push (.same rfl)).setStage _).demand nofun
  | detach =>
    simp only [Frame.workReturn]
    exact h.pop (.stmt id) fun v v' g g' hv hg => ⟨hg, .leave hv⟩

theorem workGoto (h : f.Renamed ρ f') (p : Program) (id target : StmtId) (s : LeafStage) :
    Work.Renamed ρ (f.workGoto p id target s) (f'.workGoto p id target s) := by
  cases s with
  | eval =>
    rw [Frame.workGoto, Frame.workGoto]
    split
    · exact h.defect _ _
    · rename_i label _
      dsimp only
      rw [h.waiting, h.resumes]
      split
      · have hjump : Frame.Renamed ρ
            { f with
              waiting := (unwind label.parent f.waiting f.resumes).1
              resumes := (unwind label.parent f.waiting f.resumes).2
              stage := 0, operands := [], stmt := some target }
            { f' with
              waiting := (unwind label.parent f.waiting f.resumes).1
              resumes := (unwind label.parent f.waiting f.resumes).2
              stage := 0, operands := [], stmt := some target } :=
          { h with waiting := rfl, resumes := rfl, stage := rfl, operands := .nil, stmt := rfl }
        exact hjump.demand nofun
      · have hleft : Frame.Renamed ρ
            { f with
              waiting := (unwind label.parent f.waiting f.resumes).1
              resumes := (unwind label.parent f.waiting f.resumes).2 }
            { f' with
              waiting := (unwind label.parent f.waiting f.resumes).1
              resumes := (unwind label.parent f.waiting f.resumes).2 } :=
          { h with waiting := rfl, resumes := rfl }
        exact hleft.defect _ _

/-- **Work on a statement** does the same to renamed activations. -/
theorem workStmt (hρ : ρ.OneToOne) (h : f.Renamed ρ f') (p : Program) (id : StmtId) (s : Stmt) :
    Work.Renamed ρ (f.workStmt p id s) (f'.workStmt p id s) := by
  unfold Frame.workStmt
  split
  · exact h.atStage id _ ExprStmtStage.ofNumber? (h.workExprStmt _)
  · exact h.atStage id _ BlockStage.ofNumber? fun stage => h.run _ 0
  · exact h.atStage id _ LoopStage.ofNumber? (h.workLoop _ _ _)
  · exact h.atStage id _ ForallStage.ofNumber? (h.workForall id _ _ _)
  · exact h.defect _ _
  · exact h.defect _ _
  · exact h.atStage id _ BranchStage.ofNumber? (h.workBranch _ _ _)
  · exact h.atStage id _ SelectStage.ofNumber? (h.workSelect id _ _)
  · unfold Frame.withSelect
    split
    · exact h.defect _ _
    · split
      · exact h.defect _ _
      · exact h.atStage id _ (ArmStage.ofNumber? _) (h.workArm hρ id _ _ _)
      · exact h.defect _ _
  · exact h.atStage id _ ReturnStage.ofNumber? (h.workReturn id _)
  · exact h.atStage id _ LeafStage.ofNumber? fun stage => h.demand nofun
  · exact h.atStage id _ LeafStage.ofNumber? (h.workGoto p id _)

end Frame.Renamed

end TreeMachine
