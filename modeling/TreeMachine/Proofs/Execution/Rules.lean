import TreeMachine.Proofs.Execution.Frame
import TreeMachine.Proofs.Execution.Stage
import TreeMachine.Proofs.Tree.Chain

/-!
# Rules for units of work

A unit of work on a node is made of a few operations. It takes operands, reads and writes the
environment and sets the stage. In the end it fails, goes on at a stage, begins a part or a sequence
of the node, finishes the node, calls, jumps or returns. `Frame.StmtRules` and `Frame.ExprRules`
have a rule for each of these operations, for a property of activations in the middle of the work,
of the values that are used, and of the work that is done. Whatever obeys the rules holds of all
units of work on the node (`Frame.StmtRules.workStmt`, `Frame.ExprRules.workExpr`), so the stages of
the nodes are gone through here once for all properties of this form.

The three properties are parameters, `Amid`, `Used` and `Done`. Depending on what they are, an
instance is a list of the ways in which work may end (`StmtMoves`), of what it writes
(`Frame.StmtChanges`), of where its values come from (`Frame.Offers`), or the statement that its
numbers fit into their words. A rule is given what is true at the place of the operation: that an
expression is one of the statement, that a number is one of its stages, that a select is around an
arm. It is not given the kind of the node, except where a single kind has the operation, as for
jumps and messages.

Operands and failures are common to statements and expressions (`Frame.WorkRules`).

Soundness is not an instance. There, what holds in the middle of the work depends on the stage that
it began at, and the kinds of statements are gone through once more.
-/

namespace TreeMachine

/-! ### Stages of a node -/

/-- Whether a number means a stage of a kind of statement. -/
def StmtKind.hasStage (kind : StmtKind) (stage : Nat) : Bool :=
  match kind with
  | .expr _ => (ExprStmtStage.ofNumber? stage).isSome
  | .block _ => (BlockStage.ofNumber? stage).isSome
  | .loop .. => (LoopStage.ofNumber? stage).isSome
  | .forall .. => (ForallStage.ofNumber? stage).isSome
  | .branch .. => (BranchStage.ofNumber? stage).isSome
  | .select .. => (SelectStage.ofNumber? stage).isSome
  | .arm cases _ => (ArmStage.ofNumber? cases.length stage).isSome
  | .return _ => (ReturnStage.ofNumber? stage).isSome
  | .label _ | .goto _ => (LeafStage.ofNumber? stage).isSome

@[simp] theorem StmtKind.hasStage_zero (kind : StmtKind) : kind.hasStage 0 = true := by
  cases kind <;> rfl

theorem StmtKind.hasStage_resume {kind : StmtKind} {stage : Nat} (h : kind.resume? = some stage) :
    kind.hasStage stage = true := by
  cases kind <;> cases h <;> try rfl
  rw [hasStage, Frame.leaveStage, ArmStage.ofNumber?_leave]
  rfl

theorem StmtKind.hasStage_compare {cases : List ExprId} {j : Nat} (hj : j < cases.length)
    (body : Option StmtId) :
    (arm cases body).hasStage (ArmStage.number cases.length (.compare j)) = true := by
  rw [hasStage, ArmStage.ofNumber?_compare hj]
  rfl

/-- The stages at which a loop over a collection gets the answer to a message. -/
def ForallStage.answered : List Nat :=
  [valid.number, check.number, body.number, advance.number]

theorem ForallStage.isSome_of_answered :
    ∀ stage ∈ answered, (ofNumber? stage).isSome = true := by
  decide

/-- Whether an expression that evaluates one of its parts is resumed at the stage of a number. -/
def Expr.resumesAt (x : Expr) (stage : Nat) : Bool :=
  match x with
  | .assign .. => stage == AssignStage.store.number
  | .choose .. => stage == BranchStage.branch.number
  | .call _ args => 1 ≤ stage && stage ≤ args.length + 1
  | _ => false

theorem Expr.resumesAt_arg {args : List ExprId} {j : Nat} (hj : j ≤ args.length)
    (callee : ExprId) :
    (call callee args).resumesAt (CallStage.number args.length (.arg j)) = true :=
  Bool.and_eq_true_iff.2
    ⟨decide_eq_true (Nat.succ_pos j), decide_eq_true (Nat.succ_le_succ hj)⟩

/-- The value that an expression has in all activations. A declaration has the empty value. -/
def Expr.constant? : Expr → Option Value
  | .literal s => some (.scalar s)
  | .name n => some (.selector n)
  | .function id => some (.function id)
  | .declare _ => some .empty
  | _ => none

namespace Frame

/-- The waiting statement and the stage that are taken off, and what is left. -/
theorem popWaiting_of_some {f : Frame} {q : StmtId} {stage : Nat}
    (h : f.popWaiting.1 = some (q, stage)) : ∃ waiting resumes, f.waiting = q :: waiting ∧
      f.resumes = stage :: resumes ∧
      f.popWaiting.2 = { f with waiting := waiting, resumes := resumes } := by
  unfold popWaiting at h ⊢
  split at h
  · cases h
  · cases h
  · rename_i hwaiting hresumes
    cases h
    exact ⟨_, _, hwaiting, hresumes, rfl⟩

/-- What all work consists of: an operand is used, or the work fails. `Amid` is a property of
activations in the middle of the work, `Used` one of the values that are used, and `Done` one of the
work that is done. -/
structure WorkRules (Amid : Frame → Prop) (Used : Value → Prop) (Done : Work → Prop) : Prop where
  operand {g : Frame} {v : Value} {rest : List Value} (hg : Amid g)
    (hoperands : g.operands = v :: rest) : Used v ∧ Amid { g with operands := rest }
  fails {g : Frame} {e : Fault} (hg : Amid g) : Done (g, .error e)

theorem WorkRules.pop {Amid : Frame → Prop} {Used : Value → Prop} {Done : Work → Prop} {g : Frame}
    (h : WorkRules Amid Used Done) (hg : Amid g) (place : Place) {next : Value → Frame → Work}
    (hnext : ∀ v rest, Used v → Amid { g with operands := rest } →
      Done (next v { g with operands := rest })) : Done (g.pop place next) := by
  unfold Frame.pop
  split
  · exact h.fails hg
  · rename_i v rest hoperands
    obtain ⟨hv, hrest⟩ := h.operand hg hoperands
    exact hnext v rest hv hrest

/-! ### Work on a statement -/

/-- The keys that work on a statement writes: the one of the statement, those of the expressions
that it evaluates itself, and its variables. -/
inductive StmtKey (i : StmtId) (s : Stmt) : Key → Prop
  | own : StmtKey i s (.stmt i)
  | expr {e : ExprId} (he : e ∈ s.kind.exprs) : StmtKey i s (.expr e)
  | var {y : VarId} (hy : y ∈ s.kind.vars) : StmtKey i s (.var y)

/-- What work on a statement consists of. -/
structure StmtRules (p : Program) (i : StmtId) (s : Stmt) (Amid : Frame → Prop)
    (Used : Value → Prop) (Done : Work → Prop) : Prop extends WorkRules Amid Used Done where
  remembered {g : Frame} {k : Key} {v : Value} (hg : Amid g) (hk : ∀ y, k ≠ .var y)
    (hget : g.env.get? k = some v) : Used v
  write {g : Frame} {k : Key} {v : Value} (hg : Amid g) (hk : StmtKey i s k) (hv : Used v) :
    Amid { g with env := g.env.put k v }
  pushEmpty {g : Frame} (hg : Amid g) : Amid (g.push .empty)
  setStage {g : Frame} {stage : Nat} (hg : Amid g) (hstage : s.kind.hasStage stage = true) :
    Amid { g with stage := stage }
  stays {g : Frame} (hg : Amid g) : Done (g.demand .pending)
  evaluates {g : Frame} {e : ExprId} {stage : Nat} (hg : Amid g) (he : e ∈ s.kind.exprs)
    (hstage : s.kind.hasStage stage = true) : Done (g.evaluate e stage)
  enters {g : Frame} {j c : StmtId} {resume : Nat} (hg : Amid g) (hj : g.stmt = some j)
    (hc : c ∈ s.kind.children) (hresume : s.kind.resume? = some resume) :
    Done ({ g with
      waiting := j :: g.waiting
      resumes := resume :: g.resumes
      stmt := some c
      stage := 0 }.demand .pending)
  completes {g : Frame} (hg : Amid g) : Done (g.demand .complete)
  sends {g : Frame} {index : VarId} {iterator : ExprId} {body : Option StmtId} {stage : Nat}
    {m : Message} {collection : Value} {state : Option Value} (hg : Amid g)
    (hkind : s.kind = .forall [index] [iterator] body) (hstage : stage ∈ ForallStage.answered)
    (hcollection : Used collection) (hstate : ∀ v, state = some v → Used v) :
    Done ({ g with stage := stage }.send m collection state)
  leaves {g : Frame} {q : StmtId} {waiting : List StmtId} {resumes : List Nat} (hg : Amid g)
    (hq : s.parent = some q) (hwaiting : g.waiting = q :: waiting)
    (hresumes : g.resumes = 0 :: resumes) :
    Done ({ g with waiting := waiting, resumes := resumes, stmt := some q }.demand .complete)
  lost {g : Frame} {q : StmtId} {t : Stmt} {e : Fault} (hg : Amid g) (hq : s.parent = some q)
    (ht : p.stmt? q = some t) (hselect : t.kind.isSelect = true)
    (hpop : g.popWaiting.1 ≠ some (q, 0)) : Done (g.popWaiting.2, .error e)
  jumps {g : Frame} {t : StmtId} {label : Stmt} (hg : Amid g) (hkind : s.kind = .goto t)
    (ht : p.stmt? t = some label)
    (hhead : (unwind label.parent g.waiting g.resumes).1.head? = label.parent) :
    Done ({ g with
      waiting := (unwind label.parent g.waiting g.resumes).1
      resumes := (unwind label.parent g.waiting g.resumes).2
      stage := 0
      operands := []
      stmt := some t }.demand .jumped)
  strays {g : Frame} {t : StmtId} {label : Stmt} {e : Fault} (hg : Amid g)
    (hkind : s.kind = .goto t) (ht : p.stmt? t = some label)
    (hhead : (unwind label.parent g.waiting g.resumes).1.head? ≠ label.parent) :
    Done ({ g with
      waiting := (unwind label.parent g.waiting g.resumes).1
      resumes := (unwind label.parent g.waiting g.resumes).2 }, .error e)
  returns {g : Frame} {v : Value} (hg : Amid g) (hv : Used v) : Done (g.demand (.leave v))

namespace StmtRules

variable {p : Program} {i : StmtId} {s : Stmt} {Amid : Frame → Prop} {Used : Value → Prop}
  {Done : Work → Prop} {g : Frame}

section

variable (h : StmtRules p i s Amid Used Done) (hg : Amid g)

include h hg

/-! ### Ways to go on -/

theorem popBool (place : Place) {next : Bool → Frame → Work}
    (hnext : ∀ b rest, Amid { g with operands := rest } →
      Done (next b { g with operands := rest })) : Done (g.popBool place next) := by
  refine h.pop hg place fun v rest _ hrest => ?_
  split
  · exact hnext _ rest hrest
  · exact h.fails hrest

/-- Running a sequence that is not there is to go on at the stage behind it. -/
theorem run {child : Option StmtId} (hchild : ∀ c, child = some c → c ∈ s.kind.children)
    {resume : Nat} (hresume : s.kind.resume? = some resume) : Done (g.run child resume) := by
  have hskip : Done ((g.skip resume).1.demand (g.skip resume).2) := by
    unfold skip
    split
    · exact h.completes hg
    · exact h.stays (h.setStage hg (StmtKind.hasStage_resume hresume))
  unfold Frame.run
  cases child with
  | none => exact hskip
  | some c =>
    cases hstmt : g.stmt with
    | none =>
      rw [descend_of_stmt_none hstmt]
      exact hskip
    | some j =>
      rw [descend_some hstmt]
      exact h.enters hg hstmt (hchild c rfl) hresume

theorem atStage {kind : StmtKind} {σ : Type} {stage : Option σ} {work : Frame → σ → Work}
    (hwork : ∀ st, Done (work g st)) : Done (g.atStage i kind stage work) := by
  cases stage with
  | none => exact h.fails hg
  | some st => exact hwork st

/-! ### Kinds of statements -/

theorem workExprStmt {e : ExprId} (hkind : s.kind = .expr e) (stage : ExprStmtStage) :
    Done (g.workExprStmt e stage) := by
  cases stage with
  | eval => exact h.evaluates hg (by rw [hkind]; exact List.mem_cons_self) (by rw [hkind]; rfl)
  | discard =>
    have htail : Amid { g with operands := g.operands.tail } := by
      cases hoperands : g.operands with
      | nil =>
        have hsame : { g with operands := [] } = g := by rw [← hoperands]
        exact hsame ▸ hg
      | cons v rest => exact (h.operand hg hoperands).2
    exact h.completes htail

theorem workLoop {cond : ExprId} {body : Option StmtId} {testFirst : Bool}
    (hkind : s.kind = .loop cond body testFirst) (stage : LoopStage) :
    Done (g.workLoop cond body testFirst stage) := by
  have hbody : ∀ c, body = some c → c ∈ s.kind.children := by
    intro c hc
    rw [hkind]
    exact Option.mem_toList.2 hc
  have hresume : s.kind.resume? = some LoopStage.test.number := by rw [hkind]; rfl
  cases stage with
  | enter =>
    simp only [Frame.workLoop]
    split
    · exact h.stays (h.setStage hg (StmtKind.hasStage_resume hresume))
    · exact h.run hg hbody hresume
  | test => exact h.evaluates hg (by rw [hkind]; exact List.mem_cons_self) (by rw [hkind]; rfl)
  | check =>
    refine h.popBool hg _ fun holds rest hrest => ?_
    split
    · exact h.run hrest hbody hresume
    · exact h.completes hrest

theorem withCollection (iterator : ExprId) {next : Value → Work}
    (hnext : ∀ v, Used v → Done (next v)) : Done (g.withCollection i iterator next) := by
  unfold Frame.withCollection
  split
  · rename_i v hget
    exact hnext v (h.remembered (k := .expr iterator) hg (fun _ => nofun) hget)
  · exact h.fails hg

theorem withLoopState {next : Value → Work} (hnext : ∀ v, Used v → Done (next v)) :
    Done (g.withLoopState i next) := by
  unfold Frame.withLoopState
  split
  · rename_i v hget
    exact hnext v (h.remembered (k := .stmt i) hg (fun _ => nofun) hget)
  · exact h.fails hg

theorem takeLoopState {index : VarId} {iterator : ExprId} {body : Option StmtId}
    (hkind : s.kind = .forall [index] [iterator] body) : Done (g.takeLoopState i iterator) := by
  refine h.pop hg _ fun state rest hstate hrest => ?_
  have hput := h.write hrest .own hstate
  refine h.withCollection hput iterator fun collection hcollection => ?_
  refine h.sends hput hkind (by decide) hcollection fun v hv => ?_
  cases hv
  exact hstate

theorem askAtState {index : VarId} {iterator : ExprId} {body : Option StmtId}
    (hkind : s.kind = .forall [index] [iterator] body) (m : Message) {resume : ForallStage}
    (hresume : resume.number ∈ ForallStage.answered) :
    Done (g.askAtState i iterator m resume) := by
  refine h.withCollection hg iterator fun collection hcollection => ?_
  refine h.withLoopState hg fun state hstate => ?_
  refine h.sends hg hkind hresume hcollection fun v hv => ?_
  cases hv
  exact hstate

theorem workForall {index : VarId} {iterator : ExprId} {body : Option StmtId}
    (hkind : s.kind = .forall [index] [iterator] body) (stage : ForallStage) :
    Done (g.workForall i index iterator body stage) := by
  have hiterator : iterator ∈ s.kind.exprs := by rw [hkind]; exact List.mem_cons_self
  cases stage with
  | evalIterator => exact h.evaluates hg hiterator (by rw [hkind]; rfl)
  | start =>
    simp only [Frame.workForall]
    refine h.pop hg _ fun collection rest hcollection hrest => ?_
    have hput := h.write hrest (.expr hiterator) hcollection
    have hvalid : ForallStage.valid.number ∈ ForallStage.answered := by decide
    exact h.sends hput hkind hvalid hcollection nofun
  | valid => exact h.takeLoopState hg hkind
  | check =>
    refine h.popBool hg _ fun valid rest hrest => ?_
    split
    · exact h.askAtState hrest hkind .index (by decide)
    · exact h.completes hrest
  | body =>
    simp only [Frame.workForall]
    refine h.pop hg _ fun element rest helement hrest => ?_
    have hindex : index ∈ s.kind.vars := by rw [hkind]; exact List.mem_cons_self
    refine h.run (h.write hrest (.var hindex) helement) (fun c hc => ?_) (by rw [hkind]; rfl)
    rw [hkind]
    exact Option.mem_toList.2 hc
  | next => exact h.askAtState hg hkind .next (by decide)
  | advance => exact h.takeLoopState hg hkind

theorem workBranch {cond : ExprId} {thenBody elseBody : Option StmtId}
    (hkind : s.kind = .branch cond thenBody elseBody) (stage : BranchStage) :
    Done (g.workBranch cond thenBody elseBody stage) := by
  cases stage with
  | test => exact h.evaluates hg (by rw [hkind]; exact List.mem_cons_self) (by rw [hkind]; rfl)
  | branch =>
    refine h.popBool hg _ fun holds rest hrest => ?_
    refine h.run (h.setStage hrest s.kind.hasStage_zero) (fun c hc => ?_) (by rw [hkind]; rfl)
    rw [hkind]
    cases holds with
    | true => exact List.mem_append_left _ (Option.mem_toList.2 hc)
    | false => exact List.mem_append_right _ (Option.mem_toList.2 hc)

theorem workSelect {selector : ExprId} {arms : Option StmtId}
    (hkind : s.kind = .select selector arms) (stage : SelectStage) :
    Done (g.workSelect i selector arms stage) := by
  cases stage with
  | eval => exact h.evaluates hg (by rw [hkind]; exact List.mem_cons_self) (by rw [hkind]; rfl)
  | dispatch =>
    simp only [Frame.workSelect]
    refine h.pop hg _ fun v rest hv hrest => ?_
    have hput := h.setStage (h.write hrest .own hv) s.kind.hasStage_zero
    refine h.run hput (fun c hc => ?_) (by rw [hkind]; rfl)
    rw [hkind]
    exact Option.mem_toList.2 hc

theorem runArm {cases : List ExprId} {body : Option StmtId} (hkind : s.kind = .arm cases body) :
    Done (g.run body (leaveStage cases)) := by
  refine h.run hg (fun c hc => ?_) (by rw [hkind]; rfl)
  rw [hkind]
  exact Option.mem_toList.2 hc

theorem evaluateCase {cases : List ExprId} {body : Option StmtId}
    (hkind : s.kind = .arm cases body) {j : Nat} {case : ExprId} (hcase : cases[j]? = some case) :
    Done (g.evaluate case (ArmStage.number cases.length (.compare j))) := by
  refine h.evaluates hg ?_ ?_
  · rw [hkind]
    exact List.mem_of_getElem? hcase
  · rw [hkind]
    exact StmtKind.hasStage_compare (List.getElem?_eq_some_iff.1 hcase).1 body

theorem compareCase {cases : List ExprId} {body : Option StmtId} (hkind : s.kind = .arm cases body)
    (select : StmtId) (j : Nat) (case : ExprId) :
    Done (g.compareCase i select cases body j case) := by
  refine h.pop hg _ fun v rest _ hrest => ?_
  split
  · exact h.fails hrest
  · split
    · exact h.fails hrest
    · exact h.runArm hrest hkind
    · split
      · rename_i next hnext
        exact h.evaluateCase hrest hkind hnext
      · exact h.completes hrest

theorem workArm {cases : List ExprId} {body : Option StmtId} (hkind : s.kind = .arm cases body)
    {q : StmtId} {t : Stmt} (hq : s.parent = some q) (ht : p.stmt? q = some t)
    (hselect : t.kind.isSelect = true) (stage : ArmStage) :
    Done (g.workArm i q cases body stage) := by
  cases stage with
  | enter =>
    simp only [Frame.workArm]
    split
    · exact h.runArm hg hkind
    · exact h.evaluateCase hg hkind rfl
  | compare j =>
    simp only [Frame.workArm]
    split
    · exact h.compareCase hg hkind q j _
    · exact h.fails hg
  | leave =>
    simp only [Frame.workArm]
    split
    · rename_i hpop
      obtain ⟨waiting, resumes, hwaiting, hresumes, hleft⟩ := popWaiting_of_some hpop
      rw [hleft]
      exact h.leaves (g := g) hg hq hwaiting hresumes
    · rename_i hpop
      exact h.lost hg hq ht hselect hpop

theorem workReturn {value : Option ExprId} (hkind : s.kind = .return value) (stage : ReturnStage) :
    Done (g.workReturn i value stage) := by
  have hdetach : s.kind.hasStage ReturnStage.detach.number = true := by rw [hkind]; rfl
  cases stage with
  | eval =>
    simp only [Frame.workReturn]
    split
    · exact h.evaluates hg (by rw [hkind]; exact List.mem_singleton_self _) hdetach
    · exact h.stays (h.setStage (h.pushEmpty hg) hdetach)
  | detach =>
    simp only [Frame.workReturn]
    exact h.pop hg _ fun v rest hv hrest => h.returns hrest hv

theorem workGoto {t : StmtId} (hkind : s.kind = .goto t) (stage : LeafStage) :
    Done (g.workGoto p i t stage) := by
  cases stage
  simp only [Frame.workGoto]
  split
  · exact h.fails hg
  · rename_i label ht
    split
    · rename_i hhead
      exact h.jumps hg hkind ht hhead
    · rename_i hhead
      exact h.strays hg hkind ht hhead

/-- What obeys the rules holds of **a unit of work on a statement**. -/
theorem workStmt : Done (g.workStmt p i s) := by
  unfold Frame.workStmt
  split
  · exact h.atStage hg fun st => h.workExprStmt hg ‹_› st
  · rename_i body hkind
    refine h.atStage hg fun st => ?_
    cases st
    refine h.run hg (fun c hc => ?_) (by rw [hkind]; rfl)
    rw [hkind]
    exact Option.mem_toList.2 hc
  · exact h.atStage hg fun st => h.workLoop hg ‹_› st
  · exact h.atStage hg fun st => h.workForall hg ‹_› st
  -- A loop over several collections, or with several variables, fails at once.
  · exact h.fails hg
  · exact h.fails hg
  · exact h.atStage hg fun st => h.workBranch hg ‹_› st
  · exact h.atStage hg fun st => h.workSelect hg ‹_› st
  · rename_i cases body hkind
    unfold withSelect
    split
    · exact h.fails hg
    · rename_i q hq
      split
      · exact h.fails hg
      · rename_i hselect
        exact h.atStage hg fun st => h.workArm hg hkind hq hselect rfl st
      · exact h.fails hg
  · exact h.atStage hg fun st => h.workReturn hg ‹_› st
  · refine h.atStage hg fun st => ?_
    cases st
    exact h.completes hg
  · exact h.atStage hg fun st => h.workGoto hg ‹_› st

end

end StmtRules

/-! ### Work on an expression -/

/-- What work on an expression consists of. -/
structure ExprRules (e : ExprId) (x : Expr) (Amid : Frame → Prop) (Used : Value → Prop)
    (Done : Work → Prop) : Prop extends WorkRules Amid Used Done where
  reads {g : Frame} {y : VarId} {v w : Value} (hg : Amid g) (hget : g.env.get? (.var y) = some v)
    (hread : v.read = .ok w) : Used w
  constant {v : Value} (hv : x.constant? = some v) : Used v
  declares {g : Frame} {y : VarId} (hg : Amid g) (hy : y ∈ x.vars) :
    Amid { g with env := g.env.declare y }
  assigns {g : Frame} {y : VarId} {v : Value} (hg : Amid g) (hy : y ∈ x.vars) (hv : Used v) :
    Amid { g with env := g.env.put (.var y) v }
  evaluates {g : Frame} {c : ExprId} {resume : Nat} (hg : Amid g) (hc : c ∈ x.parts)
    (hresume : x.resumesAt resume = true) : Done (g.evaluate c resume)
  replaces {g : Frame} {c : ExprId} (hg : Amid g) (hc : c ∈ x.parts) :
    Done ({ g with expr := some c, exprStage := 0 }.demand .pending)
  finishes {g : Frame} {v : Value} (hg : Amid g) (hv : Used v) :
    Done ((g.finish v).demand .pending)
  calls {g : Frame} {callee : ExprId} {args : List ExprId} (hg : Amid g)
    (hx : x = .call callee args) :
    Done ({ g with exprStage := CallStage.number args.length .complete }.demand
      (.call (args.length + 1)))

namespace ExprRules

variable {e : ExprId} {x : Expr} {Amid : Frame → Prop} {Used : Value → Prop} {Done : Work → Prop}
  {g : Frame}

section

variable (h : ExprRules e x Amid Used Done) (hg : Amid g)

include h hg

theorem atExprStage {σ : Type} {stage : Option σ} {work : Frame → σ → Work}
    (hwork : ∀ st, Done (work g st)) : Done (g.atExprStage e x stage work) := by
  cases stage with
  | none => exact h.fails hg
  | some st => exact hwork st

/-! ### Kinds of expressions -/

/-- The value of an expression without parts, and the activation behind it. -/
theorem leafValue {p : Program} {v : Value} {g' : Frame} (hvalue : g.leafValue p x = .ok (v, g')) :
    Used v ∧ Amid g' := by
  unfold Frame.leafValue at hvalue
  cases x with
  | var y =>
    dsimp only at hvalue
    split at hvalue
    · rename_i w hget
      cases hread : w.read with
      | error c => rw [hread] at hvalue; cases hvalue
      | ok w' =>
        rw [hread] at hvalue
        cases hvalue
        exact ⟨h.reads hg hget hread, hg⟩
    · cases hvalue
  | declare y =>
    cases hvalue
    exact ⟨h.constant rfl, h.declares hg List.mem_cons_self⟩
  | literal s =>
    cases hvalue
    exact ⟨h.constant rfl, hg⟩
  | name n =>
    cases hvalue
    exact ⟨h.constant rfl, hg⟩
  | function id =>
    cases hvalue
    exact ⟨h.constant rfl, hg⟩
  | _ => cases hvalue

theorem workLeaf (p : Program) (stage : LeafStage) : Done (g.workLeaf p e x stage) := by
  cases stage
  simp only [Frame.workLeaf]
  split
  · rename_i v g' hvalue
    obtain ⟨hv, hg'⟩ := h.leafValue hg hvalue
    exact h.finishes hg' hv
  · exact h.fails hg

theorem workAssign (p : Program) {target : VarId} {value : ExprId} (hx : x = .assign target value)
    (stage : AssignStage) : Done (g.workAssign p e target value stage) := by
  subst hx
  cases stage with
  | eval => exact h.evaluates hg List.mem_cons_self rfl
  | store =>
    simp only [Frame.workAssign]
    refine h.pop hg _ fun v rest hv hrest => ?_
    split
    · exact h.finishes (h.assigns hrest List.mem_cons_self hv) hv
    · exact h.fails hrest

/-- The side that is taken replaces the conditional expression. -/
theorem workChoose {cond thenExpr elseExpr : ExprId} (hx : x = .choose cond thenExpr elseExpr)
    (stage : BranchStage) : Done (g.workChoose e cond thenExpr elseExpr stage) := by
  subst hx
  cases stage with
  | test => exact h.evaluates hg List.mem_cons_self rfl
  | branch =>
    simp only [Frame.workChoose]
    refine h.pop hg _ fun v rest _ hrest => ?_
    split
    · rename_i b _
      refine h.replaces hrest ?_
      cases b with
      | true => exact List.mem_cons_of_mem _ List.mem_cons_self
      | false => exact List.mem_cons_of_mem _ (List.mem_cons_of_mem _ List.mem_cons_self)
    · exact h.fails hrest

theorem workCall {callee : ExprId} {args : List ExprId} (hx : x = .call callee args)
    (stage : CallStage) : Done (g.workCall e callee args stage) := by
  cases stage with
  | callee =>
    subst hx
    exact h.evaluates hg List.mem_cons_self (Expr.resumesAt_arg (Nat.zero_le _) callee)
  | arg j =>
    simp only [Frame.workCall]
    split
    · rename_i arg harg
      subst hx
      have hlt := (List.getElem?_eq_some_iff.1 harg).1
      exact h.evaluates hg (List.mem_cons_of_mem _ (List.mem_of_getElem? harg))
        (Expr.resumesAt_arg hlt callee)
    · exact h.fails hg
  | invoke => exact h.calls hg hx
  | complete =>
    simp only [Frame.workCall]
    exact h.pop hg _ fun v rest hv hrest => h.finishes hrest hv

/-- What obeys the rules holds of **a unit of work on an expression**. -/
theorem workExpr (p : Program) : Done (g.workExpr p e x) := by
  unfold Frame.workExpr
  split
  · exact h.atExprStage hg fun st => h.workAssign hg p rfl st
  · exact h.atExprStage hg fun st => h.workChoose hg rfl st
  · exact h.atExprStage hg fun st => h.workCall hg rfl st
  · exact h.atExprStage hg fun st => h.workLeaf hg p st

end

end ExprRules

end Frame

end TreeMachine
