import TreeMachine.Proofs.Execution.Frame
import TreeMachine.Proofs.Execution.Stage
import TreeMachine.Proofs.Tree.Chain

/-!
# The shape of an activation

Between two units of work an activation has a shape (`Frame.Shaped`). The waiting statements are
those that enclose the current one. The number of operands is what the stages of the current
expression, of the suspended ones and of the current statement say: each stage of a node stands for
a number of operands, of which a suspended node still misses one. What a loop over a collection or a
select keeps in the environment is there as soon as a later stage, or a statement inside, may want
it.

The shape is what makes every read of a unit of work succeed. An operand that is taken has been
pushed at an earlier stage of the same node; a value that is looked up under a key has been written
before; a stage is one of its kind; and a statement that is resumed is found on the stack with the
stage at which its kind goes on. Each of these reads has a defect as its alternative in the step
function, and the shape excludes it.

There are three cases: nothing is left to do, the activation is at a statement, or it is at an
expression of one. An activation that has made a call has a shape once it has got the result
(`Frame.Awaits`); this is how the activations below the innermost one are described, and it means
that nothing has to be known about the call.

The shape does not say what the operands are. That they can be used, and that handles have objects,
is kept track of beside it.
-/

namespace TreeMachine

/-! ### Operands of a stage -/

/-- The operands that an expression statement has at a stage. -/
def ExprStmtStage.held : ExprStmtStage → Nat
  | .eval => 0
  | .discard => 1

/-- The operands that a loop with a condition has at a stage. -/
def LoopStage.held : LoopStage → Nat
  | .enter => 0
  | .test => 0
  | .check => 1

/-- The operands that a loop over a collection has at a stage. -/
def ForallStage.held : ForallStage → Nat
  | .evalIterator => 0
  | .start => 1
  | .valid => 1
  | .check => 1
  | .body => 1
  | .next => 0
  | .advance => 1

/-- The operands that a conditional has at a stage. -/
def BranchStage.held : BranchStage → Nat
  | .test => 0
  | .branch => 1

/-- The operands that a select has at a stage. -/
def SelectStage.held : SelectStage → Nat
  | .eval => 0
  | .dispatch => 1

/-- The operands that a return has at a stage. -/
def ReturnStage.held : ReturnStage → Nat
  | .eval => 0
  | .detach => 1

/-- The operands that an arm has at a stage. -/
def ArmStage.held : ArmStage → Nat
  | .enter => 0
  | .compare _ => 1
  | .leave => 0

/-- The operands that an assignment has at a stage. -/
def AssignStage.held : AssignStage → Nat
  | .eval => 0
  | .store => 1

/-- The operands that a call with `n` arguments has at a stage: the callee and the arguments that
have been evaluated, or the result. -/
def CallStage.held (n : Nat) : CallStage → Nat
  | .callee => 0
  | .arg i => i + 1
  | .invoke => n + 1
  | .complete => 1

/-- The operands that a statement has at the stage of a number, if the number means a stage. -/
def StmtKind.held (kind : StmtKind) (stage : Nat) : Option Nat :=
  match kind with
  | .expr _ => (ExprStmtStage.ofNumber? stage).map ExprStmtStage.held
  | .block _ => (BlockStage.ofNumber? stage).map fun _ => 0
  | .loop .. => (LoopStage.ofNumber? stage).map LoopStage.held
  | .forall .. => (ForallStage.ofNumber? stage).map ForallStage.held
  | .branch .. => (BranchStage.ofNumber? stage).map BranchStage.held
  | .select .. => (SelectStage.ofNumber? stage).map SelectStage.held
  | .arm cases _ => (ArmStage.ofNumber? cases.length stage).map ArmStage.held
  | .return _ => (ReturnStage.ofNumber? stage).map ReturnStage.held
  | .label _ | .goto _ => (LeafStage.ofNumber? stage).map fun _ => 0

/-- The operands that an expression has at the stage of a number, if the number means a stage. -/
def Expr.held (e : Expr) (stage : Nat) : Option Nat :=
  match e with
  | .assign .. => (AssignStage.ofNumber? stage).map AssignStage.held
  | .choose .. => (BranchStage.ofNumber? stage).map BranchStage.held
  | .call _ args =>
    (CallStage.ofNumber? args.length stage).map (CallStage.held args.length)
  | .literal _ | .var _ | .declare _ | .name _ | .function _ | .closure .. =>
    (LeafStage.ofNumber? stage).map fun _ => 0

/-- The stage of an argument has the operands before it, and the one behind the last argument has
them all. -/
theorem CallStage.held_arg {n i : Nat} (hi : i ≤ n) :
    (CallStage.ofNumber? n (CallStage.number n (.arg i))).map (CallStage.held n) =
      some (i + 1) := by
  rcases Nat.lt_or_ge i n with hlt | hge
  · rw [ofNumber?_arg hlt]
    rfl
  · obtain rfl : i = n := Nat.le_antisymm hi hge
    have hinvoke : number i (.arg i) = number i .invoke := rfl
    rw [hinvoke, ofNumber?_invoke]
    rfl

/-- Every statement begins without operands. -/
@[simp] theorem StmtKind.held_zero (kind : StmtKind) : kind.held 0 = some 0 := by
  cases kind <;> rfl

/-- Every expression begins without operands. -/
@[simp] theorem Expr.held_zero (e : Expr) : e.held 0 = some 0 := by
  cases e <;> rfl

/-- A statement goes on without operands after a sequence inside it. -/
theorem StmtKind.held_resume {kind : StmtKind} {stage : Nat} (h : kind.resume? = some stage) :
    kind.held stage = some 0 := by
  cases kind <;> cases h <;> try rfl
  simp only [held, Frame.leaveStage, ArmStage.ofNumber?_leave]
  rfl

/-! ### What is kept in the environment -/

/-- What a statement reads from the environment at the stage of a number, or later. -/
def StmtKind.needs (id : StmtId) (kind : StmtKind) (stage : Nat) : List Key :=
  match kind with
  | .forall _ iterators _ =>
    (if ForallStage.valid.number ≤ stage then iterators.map .expr else []) ++
      (if ForallStage.check.number ≤ stage then [.stmt id] else [])
  | _ => []

/-- What is kept in the environment for a statement while a sequence inside it is run. -/
def StmtKind.kept (id : StmtId) : StmtKind → List Key
  | .forall _ iterators _ => iterators.map .expr ++ [.stmt id]
  | .select .. => [.stmt id]
  | _ => []

@[simp] theorem StmtKind.needs_zero (id : StmtId) (kind : StmtKind) : kind.needs id 0 = [] := by
  cases kind <;> rfl

/-- A statement finds what it needs after a sequence inside it. -/
theorem StmtKind.needs_resume (id : StmtId) {kind : StmtKind} {stage : Nat}
    (h : kind.resume? = some stage) : kind.needs id stage ⊆ kind.kept id := by
  cases kind <;> cases h
  all_goals first
    | exact fun _ hk => hk
    | exact fun _ hk => (List.not_mem_nil hk).elim

theorem StmtKind.exists_of_isSelect {kind : StmtKind} (h : kind.isSelect = true) :
    ∃ selector arms, kind = .select selector arms := by
  cases kind <;> cases h
  exact ⟨_, _, rfl⟩

/-- A key has a value. -/
def Env.Has (env : Env) (k : Key) : Prop :=
  ∃ v, env.get? k = some v

theorem Env.has_put_self (env : Env) (k : Key) (v : Value) : (env.put k v).Has k :=
  ⟨v, by rw [Env.get?_put, if_pos rfl]⟩

/-- A write keeps what has a value. -/
theorem Env.Has.put {env : Env} {k : Key} (h : env.Has k) (k' : Key) (v : Value) :
    (env.put k' v).Has k := by
  rw [Has, Env.get?_put]
  split
  · exact ⟨v, rfl⟩
  · exact h

/-! ### Shapes -/

/-- The suspended expressions, whose stages stand for a number of operands: each misses one. -/
inductive Program.Suspends (p : Program) : List (ExprId × Nat) → Nat → Prop
  | nil : Suspends p [] 0
  | cons {e : ExprId} {x : Expr} {stage k n : Nat} {rest : List (ExprId × Nat)}
      (hx : p.expr? e = some x) (hheld : x.held stage = some (k + 1)) (h : Suspends p rest n) :
      Suspends p ((e, stage) :: rest) (k + n)

theorem Program.Suspends.expr? {p : Program} {suspended : List (ExprId × Nat)} {n : Nat}
    (h : p.Suspends suspended n) : ∀ d ∈ suspended, ∃ x, p.expr? d.1 = some x := by
  induction h with
  | nil => nofun
  | cons hx _ _ ih => exact List.forall_mem_cons.2 ⟨⟨_, hx⟩, ih⟩

namespace Frame

/-- An activation works on a statement, or on an expression of one. -/
structure Within (p : Program) (f : Frame) (i : StmtId) (s : Stmt) : Prop where
  stmt : f.stmt = some i
  found : p.stmt? i = some s
  chain : p.Chain s.parent f.waiting f.resumes
  kept : ∀ q ∈ f.waiting, ∀ t, p.stmt? q = some t → ∀ k ∈ t.kind.kept q, f.env.Has k
  needs : ∀ k ∈ s.kind.needs i f.stage, f.env.Has k

/-- **The shape of an activation** between two units of work: nothing is left to do, or it is at a
stage of a statement, or at a stage of an expression while the statement misses an operand. -/
inductive Shaped (p : Program) (f : Frame) : Prop
  | exhausted (hstmt : f.stmt = none) (hexpr : f.expr = none) (hsuspended : f.suspended = [])
      (hwaiting : f.waiting = []) (hresumes : f.resumes = [])
  | stmt {i : StmtId} {s : Stmt} (hw : f.Within p i s) (hexpr : f.expr = none)
      (hsuspended : f.suspended = []) (hheld : s.kind.held f.stage = some f.operands.length)
  | expr {i : StmtId} {s : Stmt} {e : ExprId} {x : Expr} {k n : Nat} (hw : f.Within p i s)
      (hheld : s.kind.held f.stage = some 1) (hexpr : f.expr = some e) (hx : p.expr? e = some x)
      (hstage : x.held f.exprStage = some k) (hsuspended : p.Suspends f.suspended n)
      (hoperands : f.operands.length = k + n)

/-- An activation that misses one operand, the value of a call that it has made. -/
def Awaits (p : Program) (f : Frame) : Prop :=
  (∀ v, (f.push v).Shaped p) ∧ (f.stmt = none → f.operands = [])

/-- An activation that is done with its current statement. -/
def Through (p : Program) (f : Frame) : Prop :=
  f.expr = none ∧ f.suspended = [] ∧ ∃ i s, f.Within p i s

variable {p : Program} {f g : Frame} {i : StmtId} {s : Stmt}

/-- What is done to operands and expressions, or written, does not leave the statement. -/
theorem Within.mono (h : f.Within p i s) (hstmt : g.stmt = f.stmt)
    (hwaiting : g.waiting = f.waiting) (hresumes : g.resumes = f.resumes)
    (henv : ∀ k, f.env.Has k → g.env.Has k) (hneeds : ∀ k ∈ s.kind.needs i g.stage, g.env.Has k) :
    g.Within p i s where
  stmt := hstmt ▸ h.stmt
  found := h.found
  chain := by rw [hwaiting, hresumes]; exact h.chain
  kept q hq t ht k hk := henv k (h.kept q (hwaiting ▸ hq) t ht k hk)
  needs := hneeds

/-- The select around an arm waits, and its value is kept. -/
theorem Within.parent_has (h : f.Within p i s) {q : StmtId} {t : Stmt} (hq : s.parent = some q)
    (ht : p.stmt? q = some t) {k : Key} (hk : k ∈ t.kind.kept q) : f.env.Has k := by
  have hchain := h.chain
  rw [hq] at hchain
  have hmem : q ∈ f.waiting := List.mem_of_mem_head? (hchain.head? ▸ rfl)
  exact h.kept q hmem t ht k hk

/-- An activation with nothing left to do that misses a value has never had anything to do. -/
theorem Awaits.of_isExhausted (h : f.Awaits p) (hf : f.isExhausted = true) :
    f.expr = none ∧ f.suspended = [] ∧ f.operands = [] ∧ f.waiting = [] ∧ f.resumes = [] := by
  obtain ⟨hstmt, hexpr⟩ : f.stmt = none ∧ f.expr = none := by
    simpa [isExhausted] using hf
  cases h.1 .empty with
  | exhausted _ _ hsuspended hwaiting hresumes =>
    exact ⟨hexpr, hsuspended, h.2 hstmt, hwaiting, hresumes⟩
  | stmt hw => exact absurd (hstmt.symm.trans hw.stmt) nofun
  | expr hw => exact absurd (hstmt.symm.trans hw.stmt) nofun

/-- The scope in which an activation calls functions is there. -/
theorem Awaits.scopeOf? (h : f.Awaits p) : ∃ scope, p.scopeOf? f.stmt f.scope = some scope := by
  cases h.1 .empty with
  | exhausted hstmt =>
    have hstmt' : f.stmt = none := hstmt
    exact ⟨f.scope, by rw [hstmt']; rfl⟩
  | @stmt i s hw =>
    have hstmt : f.stmt = some i := hw.stmt
    exact ⟨s.scope, by rw [hstmt, Program.scopeOf?, hw.found]; rfl⟩
  | @expr i s e x k n hw =>
    have hstmt : f.stmt = some i := hw.stmt
    exact ⟨s.scope, by rw [hstmt, Program.scopeOf?, hw.found]; rfl⟩

/-- The activation that begins with a body has the shape of one. -/
theorem Shaped.of_body {first : Option StmtId} (hbody : p.BodyFits first) (hstmt : f.stmt = first)
    (hstage : f.stage = 0) (hexpr : f.expr = none) (hsuspended : f.suspended = [])
    (hoperands : f.operands = []) (hwaiting : f.waiting = []) (hresumes : f.resumes = []) :
    f.Shaped p := by
  cases first with
  | none => exact .exhausted hstmt hexpr hsuspended hwaiting hresumes
  | some c =>
    obtain ⟨s, hs, hparent, -⟩ := hbody c rfl
    have hw : f.Within p c s := by
      refine ⟨hstmt, hs, ?_, ?_, ?_⟩
      · rw [hparent, hwaiting, hresumes]
        exact .top
      · rw [hwaiting]
        nofun
      · rw [hstage, StmtKind.needs_zero]
        nofun
    refine .stmt hw hexpr hsuspended ?_
    rw [hstage, StmtKind.held_zero, hoperands]
    rfl

/-- The nodes that an activation is at, or has to come back to, are there. -/
theorem Shaped.nodes (h : f.Shaped p) :
    (∀ i, f.stmt = some i → ∃ s, p.stmt? i = some s) ∧
    (∀ q ∈ f.waiting, ∃ s, p.stmt? q = some s) ∧
    (∀ e, f.expr = some e → ∃ x, p.expr? e = some x) ∧
    ∀ d ∈ f.suspended, ∃ x, p.expr? d.1 = some x := by
  have hstmt : ∀ {i s}, f.Within p i s → ∀ i, f.stmt = some i → ∃ s, p.stmt? i = some s := by
    intro i s hw j hj
    rw [hw.stmt] at hj
    cases hj
    exact ⟨s, hw.found⟩
  cases h with
  | exhausted h₁ h₂ h₃ h₄ h₅ =>
    rw [h₁, h₂, h₃, h₄]
    exact ⟨nofun, nofun, nofun, nofun⟩
  | stmt hw hexpr hsuspended _ =>
    rw [hexpr, hsuspended]
    exact ⟨hstmt hw, hw.chain.stmt?, nofun, nofun⟩
  | expr hw _ hexpr hx _ hsuspended _ =>
    refine ⟨hstmt hw, hw.chain.stmt?, fun e he => ?_, hsuspended.expr?⟩
    rw [hexpr] at he
    cases he
    exact ⟨_, hx⟩

/-- **Moving past a statement** never fails, and leaves the right shape. -/
theorem Through.advance (h : f.Through p) (hp : p.WellFormed) :
    ∃ o stage waiting resumes, f.advance p = .ok { f.cleared with
        stmt := o, stage := stage, waiting := waiting, resumes := resumes } ∧
      Shaped p { f.cleared with
        stmt := o, stage := stage, waiting := waiting, resumes := resumes } := by
  obtain ⟨hexpr, hsuspended, i, s, hw⟩ := h
  obtain ⟨o, stage, waiting, resumes, hmove, hland⟩ :=
    hw.chain.moveOn hp (f := f.cleared) rfl hw.found
  refine ⟨o, stage, waiting, resumes, by rw [advance_eq, hw.stmt]; exact hmove, ?_⟩
  -- What is kept for a statement that waited has not been touched, wherever this lands.
  cases hland with
  | finished => exact .exhausted rfl hexpr hsuspended rfl rfl
  | @first t u W R ht hchain hsub =>
    refine .stmt ⟨rfl, ht, hchain, fun q hq => hw.kept q (hsub hq), ?_⟩ hexpr hsuspended
      (StmtKind.held_zero _)
    exact (StmtKind.needs_zero t u.kind).symm ▸ nofun
  | @resumed t u stage W R ht hchain hsub hmem hresume =>
    refine .stmt ⟨rfl, ht, hchain, fun q hq => hw.kept q (hsub hq), fun k hk => ?_⟩ hexpr hsuspended
      (StmtKind.held_resume hresume)
    exact hw.kept t hmem u ht k (StmtKind.needs_resume t hresume hk)

end Frame

end TreeMachine
