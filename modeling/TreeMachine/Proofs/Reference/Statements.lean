import TreeMachine.Proofs.Reference.Loops
import TreeMachine.Proofs.Reference.Selects

/-!
# Simulating statements

A statement of any kind is simulated (`Evaluator.Simulated.evalStmt`), and so is a sequence of them,
which goes on behind a statement that is completed normally and at a label of its owner that is
jumped to (`Evaluator.Simulated.evalSequence`). Hence the evaluator is simulated with any fuel
(`Program.simulated_evaluator`).

The induction is on fuel. With one unit more, every part of a node is evaluated by the evaluator
with one unit less, which is simulated by the induction hypothesis, and the node itself takes a step
of the machine at least (`Evaluator.Simulated.refuel`). There is no induction on the tree: a loop or
a call may come back to the same node, so the tree would not do.

Jumps are where the two differ most. The machine looks for the label in its stack of waiting
statements and takes everything off that is not around the label. The evaluator leaves one sequence
after the other until it is in that of the label. Both come to the same place because the waiting
statements are those around the current one, and because the label of a well-formed jump is in a
sequence around it (`Spot.completes_goto`). A label further up in the same sequence makes a loop,
for which the fuel is used up by the sequence, one unit for each time that it is entered at a label.
-/

namespace TreeMachine

variable {p : Program} {o : Spot} {i : StmtId} {env : Env} {next parent : Option StmtId}
  {scope : ScopeId} {fuel : Nat} {ev : Evaluator}

/-! ### Jumps -/

/-- Unwinding to the innermost enclosing statement takes nothing off. -/
theorem Program.Chain.unwind_self {t : Option StmtId} {waiting : List StmtId} {resumes : List Nat}
    (h : p.Chain t waiting resumes) : Frame.unwind t waiting resumes = (waiting, resumes) := by
  cases h with
  | top => rfl
  | inside => rw [Frame.unwind, if_pos rfl]

/-- **A jump** leaves the activation at the label, with what waits around the label. -/
theorem Spot.completes_goto (hp : p.WellFormed) {target : StmtId}
    (hs : p.stmt? i = some ⟨.goto target, next, parent, scope⟩)
    (hchain : p.Chain parent o.waiting o.resumes) {w : World} (hagrees : env.Agrees w.env)
    (after : Position) :
    ∃ y, (o.state i 0 env [] w).Takes p y ∧ o.Completes p env after (.jump target) w y := by
  obtain ⟨t, name, ht, hkind, henclosed⟩ := hp.gotos i _ target hs rfl
  have hparent : p.parent? i = parent := Program.parent?_eq hs
  have hmem : ∀ q, t.parent = some q → q ∈ o.waiting := fun q hq =>
    Program.Chain.mem_of_encloses (henclosed q hq) (hparent ▸ hchain)
  obtain ⟨hunwound, -⟩ := hchain.unwind hmem
  have hworks := Frame.works_stmt (f := o.frame i 0 env []) rfl rfl hs
  have hgoto : (o.frame i 0 env []).workStmt p i ⟨.goto target, next, parent, scope⟩ =
      (o.home.at ⟨some target, 0, (Frame.unwind t.parent o.waiting o.resumes).1,
        (Frame.unwind t.parent o.waiting o.resumes).2⟩ env []).demand .jumped := by
    have hhead := hunwound.head?
    have hwork : (o.frame i 0 env []).workStmt p i ⟨.goto target, next, parent, scope⟩ =
        Frame.workGoto p i target (o.frame i 0 env []) .eval := rfl
    rw [hwork]
    simp only [Frame.workGoto, ht, Spot.frame, Home.at, hhead, if_true]
  rw [hgoto] at hworks
  exact ⟨_, Frame.Works.takes_jumped hworks, t, name, ht, hkind, hmem, env, .refl p _ env, hagrees,
    rfl⟩

/-! ### Statements -/

namespace Evaluator.Simulated

/-- An expression statement discards the value. -/
theorem evalExprStmt (h : ev.Simulated p fuel) (hp : p.WellFormed) {e : ExprId}
    (hs : p.stmt? i = some ⟨.expr e, next, parent, scope⟩)
    (hchain : p.Chain parent o.waiting o.resumes) (w : World) (hagrees : env.Agrees w.env) :
    Simulates p 1 (fuel + 1) (o.state i 0 env [] w)
      ((do
        let _ ← ev.expr scope e
        return .normal : Eval Completion) w)
      (o.Completes p env (p.passing i o.waiting o.resumes)) := by
  have he : e ∈ (StmtKind.expr e).exprs := List.mem_singleton_self e
  have hworks : (o.frame i 0 env []).Works p ((o.frame i 0 env []).evaluate e 1) :=
    Frame.works_stmt rfl rfl hs
  refine (h.operand hp hs he hworks hagrees).bindLess ?_
  rintro v w' y ⟨env', hbelow, hagrees', rfl⟩
  have hdiscard : (o.frame i 1 env' [v]).Works p ((o.frame i 1 env' []).demand .complete) :=
    Frame.works_stmt rfl rfl hs
  have hleaves : p.Leaves o.waiting env env' := .evaluate hp hs hchain he hbelow
  exact (hdiscard.completes hs hchain hleaves hagrees').lessFuel

/-- A conditional runs one of its sides. -/
theorem evalBranch (h : ev.Simulated p fuel) (hp : p.WellFormed) {cond : ExprId}
    {thenBody elseBody : Option StmtId}
    (hs : p.stmt? i = some ⟨.branch cond thenBody elseBody, next, parent, scope⟩)
    (hchain : p.Chain parent o.waiting o.resumes) (w : World) (hagrees : env.Agrees w.env) :
    Simulates p 1 (fuel + 1) (o.state i 0 env [] w)
      ((do
        let b ← ev.condition scope cond
        ev.body (some i) (if b then thenBody else elseBody) : Eval Completion) w)
      (o.Completes p env (p.passing i o.waiting o.resumes)) := by
  have hcond : cond ∈ (StmtKind.branch cond thenBody elseBody).exprs := List.mem_singleton_self cond
  have hworks : (o.frame i 0 env []).Works p ((o.frame i 0 env []).evaluate cond 1) :=
    Frame.works_stmt rfl rfl hs
  have hlook : ∀ env' v, (o.frame i 1 env' [v]).Works p
      ((o.frame i 1 env' [v]).popBool (.expr cond) fun holds f =>
        { f with stage := 0 }.run (if holds then thenBody else elseBody) 0) :=
    fun _ _ => Frame.works_stmt rfl rfl hs
  refine (h.test hp hs hcond hworks hlook w hagrees).bindLess ?_
  rintro b w' y ⟨env', v, hbelow, hagrees', rfl, hnext⟩
  have hleaves : p.Leaves o.waiting env env' := .evaluate hp hs hchain hcond hbelow
  have hside : ∀ c, (if b then thenBody else elseBody) = some c →
      c ∈ (StmtKind.branch cond thenBody elseBody).children := by
    intro c hc
    cases b with
    | true => exact List.mem_append_left _ (Option.mem_toList.2 hc)
    | false => exact List.mem_append_right _ (Option.mem_toList.2 hc)
  have hrun := h.run hp hs hchain rfl hside rfl hnext hagrees'
  refine hrun.lessFuel.imp fun c w y hc => ?_
  exact hc.passing.before hleaves

/-- A return leaves the activation with a value. -/
theorem evalReturn (h : ev.Simulated p fuel) (hp : p.WellFormed) {value : Option ExprId}
    (hs : p.stmt? i = some ⟨.return value, next, parent, scope⟩) (w : World)
    (hagrees : env.Agrees w.env) (after : Position) :
    Simulates p 1 (fuel + 1) (o.state i 0 env [] w)
      ((match value with
        | none => return .return .empty
        | some e => do
          let v ← ev.expr scope e
          return .return v : Eval Completion) w)
      (o.Completes p env after) := by
  have hleave : ∀ env' v w', (o.state i 1 env' [v] w').Takes p
      ⟨Frame.returned v o.callers, w'.heap, w'.sink⟩ := by
    intro env' v w'
    have hdetach : (o.frame i 1 env' [v]).Works p ((o.frame i 1 env' []).demand (.leave v)) :=
      Frame.works_stmt rfl rfl hs
    exact Frame.Works.takes_leave hdetach
  cases value with
  | none =>
    have hempty : (o.frame i 0 env []).Works p ((o.frame i 1 env [.empty]).demand .pending) :=
      Frame.works_stmt rfl rfl hs
    exact .step (Frame.Works.takes_pending hempty)
      ⟨1, _, Nat.zero_le 1, .one (hleave env .empty w), rfl⟩
  | some e =>
    have he : e ∈ (StmtKind.return (some e)).exprs := List.mem_singleton_self e
    have hworks : (o.frame i 0 env []).Works p ((o.frame i 0 env []).evaluate e 1) :=
      Frame.works_stmt rfl rfl hs
    refine (h.operand hp hs he hworks hagrees).bindLess ?_
    rintro v w' y ⟨env', -, -, rfl⟩
    exact ⟨1, _, Nat.zero_le 1, .one (hleave env' v w'), rfl⟩

/-- **Statements** of all kinds. -/
theorem evalStmt (h : ev.Simulated p fuel) (hp : p.WellFormed) {s : Stmt} (hs : p.stmt? i = some s)
    (harm : s.kind.isArm = false) (hchain : p.Chain s.parent o.waiting o.resumes) (w : World)
    (hagrees : env.Agrees w.env) :
    Simulates p 1 (fuel + 1) (o.state i 0 env [] w) (ev.evalStmt p i s w)
      (o.Completes p env (p.passing i o.waiting o.resumes)) := by
  obtain ⟨kind, next, parent, scope⟩ := s
  have hstage := Frame.works_stmt (f := o.frame i 0 env []) rfl rfl hs
  cases kind with
  | expr e => exact h.evalExprStmt hp hs hchain w hagrees
  | block body =>
    have hbody : ∀ c, body = some c → c ∈ (StmtKind.block body).children :=
      fun c hc => hc ▸ List.mem_singleton_self c
    exact (h.run hp hs hchain rfl hbody rfl hstage hagrees).imp fun c w y hc => hc.passing
  | loop cond body testFirst => exact h.enterLoop hp hs hchain w hagrees
  | «forall» indices iterators body =>
    -- The machine and the evaluator complain alike about other numbers of indices or iterators.
    rcases indices with _ | ⟨index, _ | ⟨index', indices⟩⟩
    · exact .failure (Frame.Works.fails hstage)
    · rcases iterators with _ | ⟨iterator, _ | ⟨iterator', iterators⟩⟩
      · exact .failure (Frame.Works.fails hstage)
      · exact h.evalForall hp hs hchain w hagrees
      · exact .failure (Frame.Works.fails hstage)
    · exact .failure (Frame.Works.fails hstage)
  | branch cond thenBody elseBody => exact h.evalBranch hp hs hchain w hagrees
  | select selector arms => exact h.evalSelect hp hs hchain w hagrees
  | arm => cases harm
  | «return» value =>
    have hreturn := h.evalReturn (o := o) hp hs w hagrees (p.passing i o.waiting o.resumes)
    cases value <;> exact hreturn
  | label name =>
    exact hstage.completes hs hchain (.refl p _ env) hagrees
  | goto target =>
    obtain ⟨y, htakes, hcompletes⟩ := Spot.completes_goto hp hs hchain hagrees _
    exact .step htakes (.result hcompletes)

/-! ### Sequences -/

/-- **A sequence** from one of its statements on. -/
theorem evalSequence (h : ev.Simulated p fuel) (hp : p.WellFormed) {s : Stmt}
    (hs : p.stmt? i = some s) (harm : s.kind.isArm = false)
    (hchain : p.Chain s.parent o.waiting o.resumes) (w : World) (hagrees : env.Agrees w.env) :
    Simulates p 1 (fuel + 1) (o.state i 0 env [] w) (ev.evalSequence p s.parent i w)
      (o.CompletesSequence p s.parent env) := by
  unfold Evaluator.evalSequence
  rw [hs]
  refine (h.evalStmt hp hs harm hchain w hagrees).bindLess ?_
  intro c w' y hc
  cases c with
  | «return» v => exact .result ⟨hc, nofun⟩
  | normal =>
    obtain ⟨env', hleaves, hagrees', rfl⟩ := hc
    cases hnext : s.next with
    | none =>
      refine .result ⟨⟨env', hleaves, hagrees', ?_⟩, nofun⟩
      rw [Program.passing_of_last hs hnext]
    | some t =>
      obtain ⟨-, u, hu, hparent, -, harm'⟩ := (hp.stmts i s hs).next t hnext
      have hsequence := h.sequence o env' w' hu (harm'.trans harm) (hparent ▸ hchain) hagrees'
      rw [hparent] at hsequence
      rw [Program.passing_of_next hs hnext]
      exact hsequence.imp fun c w y hdone => hdone.before hleaves
  | jump l =>
    obtain ⟨t, name, ht, hkind, hwaiting, hlands⟩ := hc
    have hparent : p.parent? l = t.parent := Program.parent?_eq ht
    by_cases howner : p.parent? l = s.parent
    · -- The label is in this sequence or in another one of its owner, whose waiting statements are
      -- those of this sequence.
      obtain ⟨env', hleaves, hagrees', rfl⟩ := hlands
      have hchain' : p.Chain t.parent o.waiting o.resumes := by
        rw [← hparent, howner]
        exact hchain
      have harm' : t.kind.isArm = false := by rw [hkind]; rfl
      have hsequence := h.sequence o env' w' ht harm' hchain' hagrees'
      rw [← hparent, howner] at hsequence
      rw [hchain'.unwind_self]
      have hcaught : (if p.parent? l = s.parent then ev.sequence s.parent l
          else return .jump l : Eval Completion) = ev.sequence s.parent l := if_pos howner
      rw [← hcaught] at hsequence
      exact hsequence.imp fun c w y hdone => hdone.before hleaves
    · have hpassed : (if p.parent? l = s.parent then ev.sequence s.parent l
          else return .jump l : Eval Completion) w' = some (.ok (.jump l), w') :=
        congrFun (if_neg howner) w'
      dsimp only
      rw [hpassed]
      refine .result ⟨⟨t, name, ht, hkind, hwaiting, hlands⟩, ?_⟩
      rintro l' ⟨⟩
      exact howner

/-! ### Fuel -/

/-- **One unit of fuel more** is one step of the machine more. -/
theorem refuel (h : ev.Simulated p fuel) (hp : p.WellFormed) :
    (ev.refuel p).Simulated p (fuel + 1) where
  expr callers w hexpr hstage hx hscope hagrees := by
    obtain ⟨x, hx⟩ := hx
    exact (h.evalExpr hp hexpr hstage hx hscope callers w hagrees).noLeast
  sequence o env w hs harm hchain hagrees :=
    (h.evalSequence hp hs harm hchain w hagrees).noLeast
  loop := by
    rintro i ⟨kind, next, parent, scope⟩ cond body testFirst o env w hs rfl hchain hagrees
    exact (h.evalLoop hp hs hchain w hagrees).noLeast
  iterate := by
    rintro i ⟨kind, next, parent, scope⟩ index iterator body stage collection o env w state hs rfl
      hchain hagrees hcollection hstage
    exact (h.evalIterate hp hs hchain w hagrees hcollection hstage).noLeast
  arms := by
    rintro i select ⟨kind, next, parent, scope⟩ selected o env w hs harm rfl hchain hagrees
      hselected
    cases kind with
    | arm cases body => exact h.evalArms hp hs hchain w hagrees hselected
    | _ => cases harm

end Evaluator.Simulated

/-- **The reference evaluator is simulated** with any fuel. -/
theorem Program.simulated_evaluator (hp : p.WellFormed) (fuel : Nat) :
    (p.evaluator fuel).Simulated p fuel := by
  induction fuel with
  | zero => exact Evaluator.simulated_exhausted p
  | succ fuel ih => exact ih.refuel hp

end TreeMachine
