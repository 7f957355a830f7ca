import TreeMachine.Proofs.Soundness.Work

/-!
# Work on statements is sound

A unit of work on a statement never fails for a defect, in an activation that has the right shape
and holds sound values (`Frame.On.workStmt`). The laws are stated for each way to go on first
(evaluating an expression, running a sequence, sending a message), then for each kind of statement.

A law has the form that the work is sound if what it leaves behind fits a stage: to evaluate an
expression of the statement, the statement has to be at a stage with one operand when the value
comes; to run a sequence, it has to be at the stage at which its kind is resumed, and what it keeps
for later has to be in the environment. For each kind the stages are then gone through. Each of them
takes the operands that it holds, and ends with one of the laws, so that the proofs follow the
definitions of the units of work.

Failures for a complaint are sound: a condition that is no truth value ends the run, and that is a
fault of the program and no defect. Loops over collections with another number of variables than one
are excluded by a hypothesis, since the step function calls them a defect. For a jump it is used
that the label is in a sequence around it, so that the statement around the label waits and is found
(`Frame.On.workGoto`).
-/

namespace TreeMachine

namespace Frame

/-- An activation works on a statement itself, not on an expression of it, and holds sound
values. -/
structure On (p : Program) (heap : Heap) (i : StmtId) (s : Stmt) (f : Frame) : Prop where
  within : f.Within p i s
  expr : f.expr = none
  suspended : f.suspended = []
  holds : f.Holds p heap

variable {p : Program} {heap : Heap} {f : Frame} {i : StmtId} {s : Stmt}

namespace On

/-- The environment may be written to. -/
theorem put (h : f.On p heap i s) (k : Key) {v : Value} (hv : v.Sound p heap) :
    On p heap i s { f with env := f.env.put k v } where
  within := h.within.mono rfl rfl rfl (fun _ hk => hk.put k v)
    fun _ hk => (h.within.needs _ hk).put k v
  expr := h.expr
  suspended := h.suspended
  holds := h.holds.put k hv

/-- The stage may change when what it needs is there. -/
theorem goTo (h : f.On p heap i s) (stage : Nat)
    (hneeds : ∀ k ∈ s.kind.needs i stage, f.env.Has k) :
    On p heap i s { f with stage := stage } where
  within := h.within.mono rfl rfl rfl (fun _ hk => hk) hneeds
  expr := h.expr
  suspended := h.suspended
  holds := { h.holds with }

/-- The only operand of a statement is there. -/
theorem pop (h : f.On p heap i s) (hlength : f.operands.length = 1) (place : Place)
    {next : Value → Frame → Work}
    (hnext : ∀ v, v.Sound p heap → On p heap i s { f with operands := [] } →
      Work.Sound p heap (next v { f with operands := [] })) :
    Work.Sound p heap (f.pop place next) := by
  refine sound_pop h.holds (by omega) place fun v rest hcons hv hholds => ?_
  rw [hcons, List.length_cons] at hlength
  obtain rfl : rest = [] := List.eq_nil_of_length_eq_zero (by omega)
  exact hnext v hv ⟨{ h.within with }, h.expr, h.suspended, hholds⟩

theorem popBool (h : f.On p heap i s) (hlength : f.operands.length = 1) (place : Place)
    {next : Bool → Frame → Work}
    (hnext : ∀ b, On p heap i s { f with operands := [] } →
      Work.Sound p heap (next b { f with operands := [] })) :
    Work.Sound p heap (f.popBool place next) := by
  refine h.pop hlength place fun v _ h' => ?_
  split
  · exact hnext _ h'
  · exact sound_complain _ _ _

/-! ### Going on -/

/-- A statement is finished with. -/
theorem complete (h : f.On p heap i s) : Work.Sound p heap (f.demand .complete) :=
  ⟨h.holds, h.expr, h.suspended, i, s, h.within⟩

/-- A statement goes on at a stage of its own. -/
theorem pending (h : f.On p heap i s) (hheld : s.kind.held f.stage = some f.operands.length) :
    Work.Sound p heap (f.demand .pending) :=
  sound_pending (.stmt h.within h.expr h.suspended hheld) h.holds

/-- A statement evaluates one of its expressions. -/
theorem evaluate (h : f.On p heap i s) (hp : p.WellFormed) (hoperands : f.operands = [])
    {e : ExprId} (he : e ∈ s.kind.exprs) {stage : Nat} (hheld : s.kind.held stage = some 1)
    (hneeds : s.kind.needs i stage = []) : Work.Sound p heap (f.evaluate e stage) := by
  obtain ⟨x, hx⟩ := (hp.stmts i s h.within.found).exprs e he
  have hw : Within p { f with stage := stage, expr := some e, exprStage := 0 } i s := by
    refine h.within.mono rfl rfl rfl (fun _ hk => hk) ?_
    rw [hneeds]
    nofun
  have hsuspended : p.Suspends f.suspended 0 := by
    rw [h.suspended]
    exact .nil
  have hlength : f.operands.length = 0 + 0 := by rw [hoperands]; rfl
  rw [Frame.evaluate, eval_of_expr_none h.expr]
  exact sound_pending (.expr hw hheld rfl hx (Expr.held_zero x) hsuspended hlength)
    { h.holds with }

/-- A statement runs a sequence inside it. What it keeps has been written. -/
theorem run (h : f.On p heap i s) (hp : p.WellFormed) (hoperands : f.operands = [])
    {child : Option StmtId} (hchild : ∀ c, child = some c → c ∈ s.kind.children) {stage : Nat}
    (hresume : s.kind.resume? = some stage) (hkept : ∀ k ∈ s.kind.kept i, f.env.Has k) :
    Work.Sound p heap (f.run child stage) := by
  unfold Frame.run
  cases child with
  | none =>
    rw [descend_none, skip]
    by_cases hzero : stage = 0
    · rw [if_pos hzero]
      exact h.complete
    · rw [if_neg hzero]
      refine (h.goTo _ fun k hk => hkept k (StmtKind.needs_resume i hresume hk)).pending ?_
      exact (StmtKind.held_resume hresume).trans (by rw [hoperands]; rfl)
  | some c =>
    obtain ⟨t, ht, hparent, -⟩ := (hp.stmts i s h.within.found).children c (hchild c rfl)
    rw [descend_some h.within.stmt]
    have hw : Within p { f with
        waiting := i :: f.waiting, resumes := stage :: f.resumes, stmt := some c, stage := 0 }
        c t := by
      refine ⟨rfl, ht, ?_, ?_, ?_⟩
      · rw [hparent]
        exact .inside h.within.found hresume h.within.chain
      -- The statement itself waits now, and those around it wait as before.
      · intro q hq u hu k hk
        rcases List.mem_cons.1 hq with rfl | hq
        · rw [h.within.found] at hu
          cases hu
          exact hkept k hk
        · exact h.within.kept q hq u hu k hk
      · rw [StmtKind.needs_zero]
        nofun
    have hheld : t.kind.held 0 = some f.operands.length := by
      rw [StmtKind.held_zero, hoperands]
      rfl
    exact sound_pending (.stmt hw h.expr h.suspended hheld) { h.holds with }

/-- A statement sends a message, and goes on with the answer as operand. -/
theorem send (h : f.On p heap i s) (hoperands : f.operands = [])
    (hheld : s.kind.held f.stage = some 1) (m : Message) {collection : Value}
    (hcollection : collection.Sound p heap) {state : Option Value}
    (hstate : ∀ v ∈ state, v.Sound p heap) (hcount : m.argCount = state.toList.length + 1) :
    Work.Sound p heap (f.send m collection state) := by
  have hsend : f.send m collection state =
      ({ f with operands := state.toList ++ [collection, .selector m.selector] },
        .ok (.call (m.argCount + 1))) := by
    cases state <;> simp only [Frame.send, pushMessage, push, demand, hoperands] <;> rfl
  have hstmt : f.stmt ≠ none := by
    rw [h.within.stmt]
    nofun
  rw [hsend]
  refine ⟨h.holds.setOperands _ fun v hv => ?_, state.toList ++ [collection],
    .selector m.selector, [],
    by simp [hcount], by simp, ⟨fun v => ?_, fun hnone => absurd hnone hstmt⟩⟩
  · simp only [List.mem_append, Option.mem_toList, List.mem_cons, List.not_mem_nil, or_false] at hv
    rcases hv with hv | rfl | rfl
    · exact hstate v hv
    · exact hcollection
    · trivial
  · exact .stmt { h.within with } h.expr h.suspended hheld

/-! ### Statements -/

theorem workExprStmt (h : f.On p heap i s) (hp : p.WellFormed) {e : ExprId}
    (hkind : s.kind = .expr e) (stage : ExprStmtStage) (hlength : f.operands.length = stage.held) :
    Work.Sound p heap (f.workExprStmt e stage) := by
  cases stage with
  | eval =>
    have hoperands := List.eq_nil_of_length_eq_zero hlength
    exact h.evaluate hp hoperands (by rw [hkind]; exact List.mem_cons_self) (by rw [hkind]; rfl)
      (by rw [hkind]; rfl)
  | discard =>
    have htail : On p heap i s { f with operands := f.operands.tail } :=
      ⟨{ h.within with }, h.expr, h.suspended, h.holds.take fun _ => List.mem_of_mem_tail⟩
    exact htail.complete

theorem workBlock (h : f.On p heap i s) (hp : p.WellFormed) {body : Option StmtId}
    (hkind : s.kind = .block body) (stage : BlockStage) (hlength : f.operands.length = 0) :
    Work.Sound p heap (f.workBlock body stage) := by
  cases stage with
  | enter =>
    have hoperands := List.eq_nil_of_length_eq_zero hlength
    refine h.run hp hoperands (fun c hc => ?_) (by rw [hkind]; rfl) ?_
    · rw [hkind]
      exact Option.mem_toList.2 hc
    · rw [hkind]
      nofun

theorem workLoop (h : f.On p heap i s) (hp : p.WellFormed) {cond : ExprId}
    {body : Option StmtId} {testFirst : Bool} (hkind : s.kind = .loop cond body testFirst)
    (stage : LoopStage) (hlength : f.operands.length = stage.held) :
    Work.Sound p heap (f.workLoop cond body testFirst stage) := by
  have hbody : ∀ {g : Frame}, g.On p heap i s → g.operands = [] →
      Work.Sound p heap (g.run body LoopStage.test.number) := by
    intro g hg hoperands
    refine hg.run hp hoperands (fun c hc => ?_) (by rw [hkind]; rfl) ?_
    · rw [hkind]
      exact Option.mem_toList.2 hc
    · rw [hkind]
      nofun
  cases stage with
  | enter =>
    have hoperands := List.eq_nil_of_length_eq_zero hlength
    simp only [Frame.workLoop]
    split
    · have hneeds : ∀ k ∈ s.kind.needs i LoopStage.test.number, f.env.Has k := by
        rw [hkind]
        nofun
      refine (h.goTo _ hneeds).pending ?_
      rw [hkind]
      exact congrArg some hlength.symm
    · exact hbody h hoperands
  | test =>
    have hoperands := List.eq_nil_of_length_eq_zero hlength
    exact h.evaluate hp hoperands (by rw [hkind]; exact List.mem_cons_self) (by rw [hkind]; rfl)
      (by rw [hkind]; rfl)
  | check =>
    refine h.popBool hlength _ fun holds h' => ?_
    split
    · exact hbody h' rfl
    · exact h'.complete

/-- The state of a loop over a collection is taken from the operands, and the collection is there
to be asked about it. -/
theorem takeLoopState (h : f.On p heap i s) {index : VarId} {iterator : ExprId}
    {body : Option StmtId} (hkind : s.kind = .forall [index] [iterator] body)
    (hlength : f.operands.length = 1) (hhas : f.env.Has (.expr iterator)) :
    Work.Sound p heap (f.takeLoopState i iterator) := by
  refine h.pop hlength _ fun state hstate h' => ?_
  have hput := h'.put (.stmt i) hstate
  obtain ⟨collection, hcollection⟩ := hhas.put (.stmt i) state
  simp only [withCollection, hcollection]
  have hneeds : ∀ k ∈ s.kind.needs i ForallStage.check.number,
      (f.env.put (.stmt i) state).Has k := by
    rw [hkind]
    intro k hk
    simp only [StmtKind.needs, ForallStage.number] at hk
    simp only [Nat.reduceLeDiff, if_true, List.map_cons, List.map_nil, Nat.le_refl,
      List.cons_append, List.nil_append, List.mem_cons, List.not_mem_nil, or_false] at hk
    rcases hk with rfl | rfl
    · exact ⟨collection, hcollection⟩
    · exact Env.has_put_self ..
  refine (hput.goTo _ hneeds).send rfl (by rw [hkind]; rfl) .valid ?_ ?_ rfl
  · exact hput.holds.env _ _ hcollection
  · rintro v ⟨⟩
    exact hstate

/-- A loop over a collection asks about its state, both of which are there. -/
theorem askAtState (h : f.On p heap i s) {index : VarId} {iterator : ExprId}
    {body : Option StmtId} (hkind : s.kind = .forall [index] [iterator] body)
    (hoperands : f.operands = []) (hiterator : f.env.Has (.expr iterator))
    (hloop : f.env.Has (.stmt i)) {m : Message} (hm : m.argCount = 2) {resume : ForallStage}
    (hresume : resume.held = 1) : Work.Sound p heap (f.askAtState i iterator m resume) := by
  obtain ⟨collection, hcollection⟩ := hiterator
  obtain ⟨state, hstate⟩ := hloop
  simp only [Frame.askAtState, withCollection, withLoopState, hcollection, hstate]
  have hneeds : ∀ k ∈ s.kind.needs i resume.number, f.env.Has k := by
    rw [hkind]
    intro k hk
    have hmem : k ∈ [Key.expr iterator] ++ [Key.stmt i] := by
      simp only [StmtKind.needs] at hk
      rcases List.mem_append.1 hk with hk | hk
      · split at hk
        · exact List.mem_append_left _ hk
        · cases hk
      · split at hk
        · exact List.mem_append_right _ hk
        · cases hk
    simp only [List.cons_append, List.nil_append, List.mem_cons, List.not_mem_nil,
      or_false] at hmem
    rcases hmem with rfl | rfl
    · exact ⟨collection, hcollection⟩
    · exact ⟨state, hstate⟩
  have hheld : s.kind.held resume.number = some 1 := by
    rw [hkind]
    cases resume <;> first | rfl | cases hresume
  refine (h.goTo _ hneeds).send hoperands hheld m ?_ ?_ hm
  · exact h.holds.env _ _ hcollection
  · rintro v ⟨⟩
    exact h.holds.env _ _ hstate

/-- Each stage of a loop over a collection finds what the earlier ones have written. -/
theorem workForall (h : f.On p heap i s) (hp : p.WellFormed) {index : VarId} {iterator : ExprId}
    {body : Option StmtId} (hkind : s.kind = .forall [index] [iterator] body)
    (stage : ForallStage) (hstage : ForallStage.ofNumber? f.stage = some stage)
    (hlength : f.operands.length = stage.held) :
    Work.Sound p heap (f.workForall i index iterator body stage) := by
  -- What the stage needs is known by its number, so the stage has to be traded for it.
  have hnumber : f.stage = stage.number := by
    generalize f.stage = n at hstage
    unfold ForallStage.ofNumber? at hstage
    split at hstage <;> cases hstage <;> rfl
  have hiterator : ForallStage.valid.number ≤ stage.number → f.env.Has (.expr iterator) := by
    intro hle
    refine h.within.needs _ ?_
    rw [hkind, hnumber, StmtKind.needs, if_pos hle]
    exact List.mem_append_left _ List.mem_cons_self
  have hloop : ForallStage.check.number ≤ stage.number → f.env.Has (.stmt i) := by
    intro hle
    refine h.within.needs _ ?_
    rw [hkind, hnumber, StmtKind.needs, if_pos hle]
    exact List.mem_append_right _ List.mem_cons_self
  cases stage with
  | evalIterator =>
    have hoperands := List.eq_nil_of_length_eq_zero hlength
    exact h.evaluate hp hoperands (by rw [hkind]; exact List.mem_cons_self) (by rw [hkind]; rfl)
      (by rw [hkind]; rfl)
  | start =>
    refine h.pop hlength _ fun collection hcollection h' => ?_
    have hput := h'.put (.expr iterator) hcollection
    have hneeds : ∀ k ∈ s.kind.needs i ForallStage.valid.number,
        (f.env.put (.expr iterator) collection).Has k := by
      rw [hkind]
      intro k hk
      obtain rfl : k = .expr iterator := List.mem_singleton.1 hk
      exact Env.has_put_self ..
    exact (hput.goTo _ hneeds).send rfl (by rw [hkind]; rfl) .start hcollection nofun rfl
  | valid => exact h.takeLoopState hkind hlength (hiterator (Nat.le_refl _))
  | check =>
    refine h.popBool hlength _ fun valid h' => ?_
    split
    · exact h'.askAtState hkind rfl (hiterator (by decide)) (hloop (by decide)) rfl rfl
    · exact h'.complete
  | body =>
    refine h.pop hlength _ fun element helement h' => ?_
    have hput := h'.put (.var index) helement
    refine hput.run hp rfl (fun c hc => ?_) (by rw [hkind]; rfl) ?_
    · rw [hkind]
      exact Option.mem_toList.2 hc
    · rw [hkind]
      intro k hk
      simp only [StmtKind.kept, List.map_cons, List.map_nil, List.cons_append, List.nil_append,
        List.mem_cons, List.not_mem_nil, or_false] at hk
      rcases hk with rfl | rfl
      · exact (hiterator (by decide)).put ..
      · exact (hloop (by decide)).put ..
  | next =>
    have hoperands := List.eq_nil_of_length_eq_zero hlength
    exact h.askAtState hkind hoperands (hiterator (by decide)) (hloop (by decide)) rfl rfl
  | advance => exact h.takeLoopState hkind hlength (hiterator (by decide))

theorem workBranch (h : f.On p heap i s) (hp : p.WellFormed) {cond : ExprId}
    {thenBody elseBody : Option StmtId} (hkind : s.kind = .branch cond thenBody elseBody)
    (stage : BranchStage) (hlength : f.operands.length = stage.held) :
    Work.Sound p heap (f.workBranch cond thenBody elseBody stage) := by
  cases stage with
  | test =>
    have hoperands := List.eq_nil_of_length_eq_zero hlength
    exact h.evaluate hp hoperands (by rw [hkind]; exact List.mem_cons_self) (by rw [hkind]; rfl)
      (by rw [hkind]; rfl)
  | branch =>
    refine h.popBool hlength _ fun holds h' => ?_
    have hzero := h'.goTo 0 (by rw [StmtKind.needs_zero]; nofun)
    refine hzero.run hp rfl (fun c hc => ?_) (by rw [hkind]; rfl) (by rw [hkind]; nofun)
    rw [hkind]
    cases holds with
    | true => exact List.mem_append_left _ (Option.mem_toList.2 hc)
    | false => exact List.mem_append_right _ (Option.mem_toList.2 hc)

theorem workSelect (h : f.On p heap i s) (hp : p.WellFormed) {selector : ExprId}
    {arms : Option StmtId} (hkind : s.kind = .select selector arms)
    (stage : SelectStage) (hlength : f.operands.length = stage.held) :
    Work.Sound p heap (f.workSelect i selector arms stage) := by
  cases stage with
  | eval =>
    have hoperands := List.eq_nil_of_length_eq_zero hlength
    exact h.evaluate hp hoperands (by rw [hkind]; exact List.mem_cons_self) (by rw [hkind]; rfl)
      (by rw [hkind]; rfl)
  | dispatch =>
    refine h.pop hlength _ fun v hv h' => ?_
    have hzero := (h'.put (.stmt i) hv).goTo 0 (by rw [StmtKind.needs_zero]; nofun)
    refine hzero.run hp rfl (fun c hc => ?_) (by rw [hkind]; rfl) ?_
    · rw [hkind]
      exact Option.mem_toList.2 hc
    · rw [hkind]
      intro k hk
      obtain rfl : k = .stmt i := List.mem_singleton.1 hk
      exact Env.has_put_self ..

/-- The select of an arm. -/
theorem withSelect (h : f.On p heap i s) (hp : p.WellFormed) (harm : s.kind.isArm = true)
    {next : StmtId → Work}
    (hnext : ∀ q t, s.parent = some q → p.stmt? q = some t → t.kind.isSelect = true →
      Work.Sound p heap (next q)) : Work.Sound p heap (f.withSelect p i s next) := by
  obtain ⟨q, t, hq, ht, hselect, hwith⟩ := hp.withSelect h.within.found harm
  rw [hwith]
  exact hnext q t hq ht hselect

/-- A case is compared with the value that the select keeps. -/
theorem compareCase (h : f.On p heap i s) (hp : p.WellFormed) {cases : List ExprId}
    {body : Option StmtId} (hkind : s.kind = .arm cases body) (hlength : f.operands.length = 1)
    {q : StmtId} (hhas : f.env.Has (.stmt q)) (j : Nat) (case : ExprId) :
    Work.Sound p heap (f.compareCase i q cases body j case) := by
  refine h.pop hlength _ fun v _ h' => ?_
  obtain ⟨selected, hselected⟩ := hhas
  simp only [hselected]
  split
  · exact sound_complain _ _ _
  · refine h'.run hp rfl (fun c hc => ?_) (by rw [hkind]; rfl) (by rw [hkind]; nofun)
    rw [hkind]
    exact Option.mem_toList.2 hc
  · split
    · rename_i next hnext
      have hlt := (List.getElem?_eq_some_iff.1 hnext).1
      refine h'.evaluate hp rfl ?_ ?_ (by rw [hkind]; rfl)
      · rw [hkind]
        exact List.mem_of_getElem? hnext
      · rw [hkind]
        simp only [StmtKind.held, ArmStage.ofNumber?_compare hlt]
        rfl
    · exact h'.complete

theorem workArm (h : f.On p heap i s) (hp : p.WellFormed) {cases : List ExprId}
    {body : Option StmtId} (hkind : s.kind = .arm cases body) {q : StmtId} {t : Stmt}
    (hq : s.parent = some q) (ht : p.stmt? q = some t) (hselect : t.kind.isSelect = true)
    (stage : ArmStage) (hstage : ArmStage.ofNumber? cases.length f.stage = some stage)
    (hlength : f.operands.length = stage.held) :
    Work.Sound p heap (f.workArm i q cases body stage) := by
  cases stage with
  | enter =>
    have hoperands := List.eq_nil_of_length_eq_zero hlength
    simp only [Frame.workArm]
    split
    · refine h.run hp hoperands (fun c hc => ?_) (by rw [hkind]; rfl)
        (by rw [hkind]; exact List.forall_mem_nil _)
      rw [hkind]
      exact Option.mem_toList.2 hc
    · rename_i first rest
      refine h.evaluate hp hoperands (by rw [hkind]; exact List.mem_cons_self) ?_
        (by rw [hkind]; rfl)
      have hpos : 0 < (first :: rest).length := Nat.succ_pos _
      rw [hkind]
      simp only [StmtKind.held, ArmStage.ofNumber?_compare hpos]
      rfl
  | compare j =>
    have hlt := ArmStage.lt_of_ofNumber?_compare hstage
    simp only [Frame.workArm, List.getElem?_eq_getElem hlt]
    have hkept : Key.stmt q ∈ t.kind.kept q := by
      obtain ⟨selector, arms, hk⟩ := StmtKind.exists_of_isSelect hselect
      rw [hk]
      exact List.mem_cons_self
    exact h.compareCase hp hkind hlength (h.within.parent_has hq ht hkept) j _
  | leave =>
    -- The select around the arm waits on top, at its first stage, and is finished with.
    have hchain := h.within.chain
    rw [hq] at hchain
    obtain ⟨t', stage, W, R, ht', hresume, houter, hW, hR⟩ := hchain.of_some
    cases ht.symm.trans ht'
    obtain ⟨selector, arms, hk⟩ := StmtKind.exists_of_isSelect hselect
    rw [hk] at hresume
    cases hresume
    have hpop : f.popWaiting = (some (q, 0), { f with waiting := W, resumes := R }) := by
      simp only [popWaiting, hW, hR]
    simp only [Frame.workArm, hpop, if_true]
    have hw : Within p { f with waiting := W, resumes := R, stmt := some q } q t := by
      refine ⟨rfl, ht, houter, fun r hr => h.within.kept r (hW ▸ List.mem_cons_of_mem _ hr), ?_⟩
      rw [hk]
      exact List.forall_mem_nil _
    exact ⟨{ h.holds with }, h.expr, h.suspended, q, t, hw⟩

theorem workReturn (h : f.On p heap i s) (hp : p.WellFormed) {value : Option ExprId}
    (hkind : s.kind = .return value) (stage : ReturnStage)
    (hlength : f.operands.length = stage.held) :
    Work.Sound p heap (f.workReturn i value stage) := by
  cases stage with
  | eval =>
    have hoperands := List.eq_nil_of_length_eq_zero hlength
    simp only [Frame.workReturn]
    split
    · exact h.evaluate hp hoperands (by rw [hkind]; exact List.mem_cons_self)
        (by rw [hkind]; rfl) (by rw [hkind]; rfl)
    · have hpush : On p heap i s (f.push .empty) :=
        ⟨{ h.within with }, h.expr, h.suspended, h.holds.push trivial⟩
      refine (hpush.goTo _ (by rw [hkind]; nofun)).pending ?_
      rw [hkind]
      exact congrArg (fun n => some (n + 1)) hlength.symm
  | detach => exact h.pop hlength _ fun v hv h' => ⟨h'.holds, hv⟩

/-- A jump reaches its label: the statement around the label encloses the jump, so it waits. -/
theorem workGoto (h : f.On p heap i s) (hp : p.WellFormed) {target : StmtId}
    (hkind : s.kind = .goto target) (stage : LeafStage) :
    Work.Sound p heap (f.workGoto p i target stage) := by
  obtain ⟨label, name, hlabel, -, hencloses⟩ := hp.gotos i s target h.within.found hkind
  have hparent : p.parent? i = s.parent := Program.parent?_eq h.within.found
  have hmem : ∀ q, label.parent = some q → q ∈ f.waiting := by
    intro q hq
    exact Program.Chain.mem_of_encloses (hencloses q hq) (hparent ▸ h.within.chain)
  obtain ⟨hchain, hsub⟩ := h.within.chain.unwind hmem
  simp only [Frame.workGoto, hlabel, hchain.head?, if_true]
  have hw : Within p { f with
      waiting := (unwind label.parent f.waiting f.resumes).1
      resumes := (unwind label.parent f.waiting f.resumes).2
      stage := 0
      operands := []
      stmt := some target } target label := by
    refine ⟨rfl, hlabel, hchain, fun q hq => h.within.kept q (hsub hq), ?_⟩
    rw [StmtKind.needs_zero]
    nofun
  exact ⟨{ h.holds.setOperands [] nofun with }, .stmt hw h.expr h.suspended (StmtKind.held_zero _)⟩

/-- **Statements**: a unit of work on a statement is sound, when a loop over a collection has one
index variable and one iterator. -/
theorem workStmt (h : f.On p heap i s) (hp : p.WellFormed)
    (hloop : ∀ indices iterators body, s.kind = .forall indices iterators body →
      indices.length = 1 ∧ iterators.length = 1)
    (hheld : s.kind.held f.stage = some f.operands.length) :
    Work.Sound p heap (f.workStmt p i s) := by
  unfold Frame.workStmt
  cases hkind : s.kind with
  | expr e =>
    rw [hkind] at hheld
    exact sound_atStage hheld fun st _ hlength => h.workExprStmt hp hkind st hlength
  | block body =>
    rw [hkind] at hheld
    exact sound_atStage hheld fun st _ hlength => h.workBlock hp hkind st hlength
  | loop cond body testFirst =>
    rw [hkind] at hheld
    exact sound_atStage hheld fun st _ hlength => h.workLoop hp hkind st hlength
  | «forall» indices iterators body =>
    obtain ⟨hindices, hiterators⟩ := hloop _ _ _ hkind
    obtain ⟨index, rfl⟩ := List.length_eq_one_iff.1 hindices
    obtain ⟨iterator, rfl⟩ := List.length_eq_one_iff.1 hiterators
    rw [hkind] at hheld
    exact sound_atStage hheld fun st hst hlength => h.workForall hp hkind st hst hlength
  | branch cond thenBody elseBody =>
    rw [hkind] at hheld
    exact sound_atStage hheld fun st _ hlength => h.workBranch hp hkind st hlength
  | select selector arms =>
    rw [hkind] at hheld
    exact sound_atStage hheld fun st _ hlength => h.workSelect hp hkind st hlength
  | arm cases body =>
    rw [hkind] at hheld
    refine h.withSelect hp (by rw [hkind]; rfl) fun q t hq ht hselect => ?_
    exact sound_atStage hheld fun st hst hlength =>
      h.workArm hp hkind hq ht hselect st hst hlength
  | «return» value =>
    rw [hkind] at hheld
    exact sound_atStage hheld fun st _ hlength => h.workReturn hp hkind st hlength
  | label name =>
    rw [hkind] at hheld
    refine sound_atStage hheld fun st _ _ => ?_
    cases st
    exact h.complete
  | goto target =>
    rw [hkind] at hheld
    exact sound_atStage hheld fun st _ _ => h.workGoto hp hkind st

end On

end Frame

end TreeMachine
