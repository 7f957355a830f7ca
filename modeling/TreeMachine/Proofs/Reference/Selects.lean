import TreeMachine.Proofs.Execution.Stage
import TreeMachine.Proofs.Reference.Sequences

/-!
# Simulating selects

A select goes through its arms. An arm compares its cases with the value that the select has
remembered, and the first case that has this value makes it run its body, after which the select is
left. An arm whose cases all differ leads to the next one.

The machine treats arms as statements: they have stages and successors like others, and the select
waits around them. The evaluator has a loop over the arms in its place, and inside it a loop over
the cases. So an arm that does not match is a statement that is moved past, and one that does match
takes the select off the waiting statements, with whatever comes behind the select as its own
continuation. The end of an arm, in either case, is described by one relation (`Spot.Decides`).

That the value is found again under the key of the select while cases are evaluated is the usual
argument about what is left alone. A comparison may fail for a complaint, when two values cannot be
compared, and then both sides fail in the same place.
-/

namespace TreeMachine

variable {p : Program} {o : Spot} {i select : StmtId} {env : Env} {next : Option StmtId}
  {scope : ScopeId} {cases : List ExprId} {body : Option StmtId} {fuel : Nat} {ev : Evaluator}

/-- The machine is through with the cases of an arm, and the arm is about to run its body or is
finished. -/
def Spot.Decides (p : Program) (o : Spot) (i : StmtId) (cases : List ExprId)
    (body : Option StmtId) (env : Env) (taken : Bool) (w : World) (y : State) : Prop :=
  ∃ env' stage operands, p.Leaves o.waiting env env' ∧ env'.Agrees w.env ∧
    y = o.state i stage env' operands w ∧
    (o.frame i stage env' operands).Works p
      (if taken then (o.frame i stage env' []).run body (Frame.leaveStage cases)
      else (o.frame i stage env' []).demand .complete)

/-- Where a case and the one behind it are. -/
theorem getElem?_of_append {done todo : List ExprId} {case : ExprId}
    (h : cases = done ++ case :: todo) :
    cases[done.length]? = some case ∧ cases[done.length + 1]? = todo.head? := by
  have hone : done.length + 1 - done.length = 1 := by omega
  rw [h, List.getElem?_append_right (Nat.le_refl _), Nat.sub_self,
    List.getElem?_append_right (Nat.le_succ _), hone]
  cases todo <;> exact ⟨rfl, rfl⟩

namespace Frame

/-- The unit of work of an arm at a stage. -/
theorem works_arm (hp : p.WellFormed)
    (hs : p.stmt? i = some ⟨.arm cases body, next, some select, scope⟩) {stage : ArmStage}
    (hstage : ArmStage.ofNumber? cases.length (ArmStage.number cases.length stage) = some stage)
    (env : Env) (operands : List Value) :
    (o.frame i (ArmStage.number cases.length stage) env operands).Works p
      (workArm i select cases body (o.frame i (ArmStage.number cases.length stage) env operands)
        stage) := by
  have hworks := works_stmt (f := o.frame i (ArmStage.number cases.length stage) env operands)
    rfl rfl hs
  obtain ⟨q, t, hq, -, -, hwith⟩ := hp.withSelect hs rfl
  cases hq
  have hwork : (o.frame i (ArmStage.number cases.length stage) env operands).workStmt p i
      ⟨.arm cases body, next, some select, scope⟩ = workArm i select cases body
        (o.frame i (ArmStage.number cases.length stage) env operands) stage := by
    simp only [workStmt, hwith]
    simp only [atStage, Spot.frame, Home.at, hstage]
  rwa [hwork] at hworks

/-- An arm that has run its body leaves the select. -/
theorem takes_leaveArm (hp : p.WellFormed)
    (hs : p.stmt? i = some ⟨.arm cases body, next, some select, scope⟩)
    (hchain : p.Chain (some select) o.waiting o.resumes) (env : Env) (w : World) :
    State.Takes p (o.state i (leaveStage cases) env [] w)
      ⟨o.home.at (p.behind o.waiting o.resumes) env [] :: o.callers, w.heap, w.sink⟩ := by
  obtain ⟨home, waiting, resumes, callers⟩ := o
  obtain ⟨t, stage, waiting', resumes', ht, hstage, hchain', rfl, rfl⟩ :=
    Program.Chain.of_some hchain
  obtain rfl : stage = 0 := by
    obtain ⟨q, t', hq, ht', hselect, -⟩ := hp.withSelect hs rfl
    cases hq
    rw [ht] at ht'
    cases ht'
    obtain ⟨kind, tnext, tparent, tscope⟩ := t
    cases kind with
    | select => exact (Option.some.inj hstage).symm
    | _ => cases hselect
  have hworks := works_arm (o := ⟨home, select :: waiting', 0 :: resumes', callers⟩) hp hs
    (ArmStage.ofNumber?_leave cases.length) env []
  have hleave : workArm i select cases body
      (Spot.frame ⟨home, select :: waiting', 0 :: resumes', callers⟩ i (leaveStage cases) env [])
      .leave = (home.at ⟨some select, leaveStage cases, waiting', resumes'⟩ env []).demand
        .complete := by
    simp only [workArm, popWaiting, Spot.frame, Home.at, if_true]
  have hcomplete : (Spot.frame ⟨home, select :: waiting', 0 :: resumes', callers⟩ i
      (leaveStage cases) env []).Works p
        ((home.at ⟨some select, leaveStage cases, waiting', resumes'⟩ env []).demand .complete) :=
    hleave ▸ hworks
  exact Works.takes_complete hcomplete (advance_at home env ht hchain' _ [])

end Frame

namespace Evaluator.Simulated

/-- The first one of some cases of an arm is compared with the value of the select. Unless it has
this value, the machine goes on with the case behind it. -/
theorem firstCase (h : ev.Simulated p fuel) (hp : p.WellFormed)
    (hs : p.stmt? i = some ⟨.arm cases body, next, some select, scope⟩)
    (hchain : p.Chain (some select) o.waiting o.resumes) {selected : Value} {k : Nat}
    {case : ExprId} (hcase : cases[k]? = some case) {todo : List ExprId} {stage : Nat}
    {operands : List Value} (w : World)
    (hworks : (o.frame i stage env operands).Works p
      ((o.frame i stage env []).evaluate case (ArmStage.number cases.length (.compare k))))
    (hagrees : env.Agrees w.env) (hselected : env.get? (.stmt select) = some selected)
    (hrest : ∀ env' v w', env'.Agrees w'.env → env'.get? (.stmt select) = some selected →
      (o.frame i (k + 1) env' [v]).Works p (match cases[k + 1]? with
        | some next => (o.frame i (k + 1) env' []).evaluate next
            (ArmStage.number cases.length (.compare (k + 1)))
        | none => (o.frame i (k + 1) env' []).demand .complete) →
      Simulates p 0 fuel (o.state i (k + 1) env' [v] w') (ev.matchesOne scope selected todo w')
        (o.Decides p i cases body env')) :
    Simulates p 1 (fuel + 1) (o.state i stage env operands w)
      (ev.matchesOne scope selected (case :: todo) w) (o.Decides p i cases body env) := by
  have hmem : case ∈ (StmtKind.arm cases body).exprs := List.mem_of_getElem? hcase
  have hlt : k < cases.length := (List.getElem?_eq_some_iff.1 hcase).1
  refine (h.operand hp hs hmem hworks hagrees).bindLess ?_
  rintro v w' y ⟨env', hbelow, hagrees', rfl⟩
  have hleaves : p.Leaves o.waiting env env' := .evaluate hp hs hchain hmem hbelow
  have hselected' : env'.get? (.stmt select) = some selected := by
    rw [hbelow 0 (hp.from_zero case) (.stmt select) nofun nofun, hselected]
  have hcompare := Frame.works_arm (o := o) hp hs (ArmStage.ofNumber?_compare hlt) env' [v]
  simp only [Frame.workArm, hcase, Frame.compareCase, Frame.pop, Spot.frame, Home.at,
    hselected'] at hcompare
  refine (show Simulates p 0 _ _ _ fun b w y => Primitive.equal v selected = .ok b ∧ w = w' ∧
    y = o.state i (k + 1) env' [v] w' from .ofExcept ?_ ?_).bindSame ?_
  · exact fun b hb => .result ⟨hb, rfl, rfl⟩
  · intro c hc
    rw [hc] at hcompare
    exact Frame.Works.fails hcompare
  rintro b w'' y ⟨hb, rfl, rfl⟩
  rw [hb] at hcompare
  cases b with
  | true => exact .result ⟨env', k + 1, [v], hleaves, hagrees', rfl, hcompare⟩
  | false =>
    refine (hrest env' v w'' hagrees' hselected' hcompare).imp ?_
    rintro b w y ⟨env'', stage', operands', hleaves', hagrees'', rfl, hworks'⟩
    exact ⟨env'', stage', operands', hleaves.trans hleaves', hagrees'', rfl, hworks'⟩

/-- **The cases of an arm**, from one of them on, are compared with the value of the select. -/
theorem matchesOne (h : ev.Simulated p fuel) (hp : p.WellFormed)
    (hs : p.stmt? i = some ⟨.arm cases body, next, some select, scope⟩)
    (hchain : p.Chain (some select) o.waiting o.resumes) {selected : Value} {done : List ExprId}
    {case : ExprId} {todo : List ExprId} (hcases : cases = done ++ case :: todo) {stage : Nat}
    {operands : List Value} (w : World)
    (hworks : (o.frame i stage env operands).Works p ((o.frame i stage env []).evaluate case
      (ArmStage.number cases.length (.compare done.length))))
    (hagrees : env.Agrees w.env) (hselected : env.get? (.stmt select) = some selected) :
    Simulates p 1 (fuel + 1) (o.state i stage env operands w)
      (ev.matchesOne scope selected (case :: todo) w) (o.Decides p i cases body env) := by
  induction todo generalizing done case stage env operands w with
  | nil =>
    obtain ⟨hcase, hnone⟩ := getElem?_of_append hcases
    refine h.firstCase hp hs hchain hcase w hworks hagrees hselected
      fun env' v w' hagrees' _ hlast =>
      .result ?_
    rw [hnone] at hlast
    exact ⟨env', _, [v], .refl p _ env', hagrees', rfl, hlast⟩
  | cons case' todo ih =>
    obtain ⟨hcase, hnext⟩ := getElem?_of_append hcases
    refine h.firstCase hp hs hchain hcase w hworks hagrees hselected
      fun env' v w' hagrees' hselected' hgoes => ?_
    rw [hnext] at hgoes
    have hcases' : cases = (done ++ [case]) ++ case' :: todo := by
      rw [hcases, List.append_assoc]
      rfl
    have hlength : (done ++ [case]).length = done.length + 1 := List.length_append
    refine (ih hcases' w' ?_ hagrees' hselected').lessFuel
    rw [hlength]
    exact hgoes

/-- **An arm** takes the value that is selected and runs its body, or the arm behind it is tried. -/
theorem evalArms (h : ev.Simulated p fuel) (hp : p.WellFormed) {selected : Value}
    (hs : p.stmt? i = some ⟨.arm cases body, next, some select, scope⟩)
    (hchain : p.Chain (some select) o.waiting o.resumes) (w : World) (hagrees : env.Agrees w.env)
    (hselected : env.get? (.stmt select) = some selected) :
    Simulates p 0 (fuel + 1) (o.state i 0 env [] w) (ev.evalArms p selected i w)
      (o.Completes p env (p.behind o.waiting o.resumes)) := by
  have hstage : ArmStage.ofNumber? cases.length (ArmStage.number cases.length .enter) =
      some .enter := rfl
  have henter := Frame.works_arm (o := o) hp hs hstage env []
  -- An arm without cases decides for its body at once.
  have hdecides : Simulates p 0 (fuel + 1) (o.state i 0 env [] w)
      ((if cases = [] then pure true else ev.matchesOne scope selected cases : Eval Bool) w)
      (o.Decides p i cases body env) := by
    cases cases with
    | nil => exact .result ⟨env, 0, [], .refl p _ env, hagrees, rfl, henter⟩
    | cons case todo =>
      have hcases : case :: todo = [] ++ case :: todo := rfl
      have hmatches := h.matchesOne hp hs hchain hcases w henter hagrees hselected
      exact hmatches.noLeast
  unfold Evaluator.evalArms
  rw [hs]
  refine hdecides.bindSame ?_
  rintro taken w' y ⟨env', stage, operands, hleaves, hagrees', rfl, hworks⟩
  cases taken with
  | true =>
    have hbody : ∀ c, body = some c → c ∈ (StmtKind.arm cases body).children :=
      fun c hc => hc ▸ List.mem_singleton_self c
    have hrun := h.run hp hs hchain rfl hbody rfl hworks hagrees'
    refine Simulates.andThen hrun.noLeast ?_
    intro c w'' y hc
    cases c with
    | normal =>
      obtain ⟨env'', hl, hagrees'', rfl⟩ := hc.lands
      have hleave := Frame.takes_leaveArm hp hs hchain env'' w''
      exact ⟨1, _, .one hleave, env'', hleaves.trans hl.outer, hagrees'', rfl⟩
    | «return» v => exact ⟨0, y, .refl y, (hc.leave nofun _).before hleaves⟩
    | jump l => exact ⟨0, y, .refl y, (hc.leave nofun _).before hleaves⟩
  | false =>
    cases next with
    | none =>
      have hdone : Simulates p 1 (fuel + 1) _ _ _ :=
        hworks.completes hs hchain hleaves hagrees'
      rw [Program.passing_of_last hs rfl] at hdone
      exact hdone.noLeast
    | some t =>
      have htakes := Frame.Works.takes_passing (w := w') hs hchain hworks
      obtain ⟨-, s, ht, hparent, -, harm⟩ := (hp.stmts i _ hs).next t rfl
      have hmem : select ∈ o.waiting := List.mem_of_mem_head? hchain.head?
      obtain ⟨q, hq⟩ := hchain.stmt? select hmem
      have hselected' : env'.get? (.stmt select) = some selected := by
        rw [(hleaves select hmem q hq).1, hselected]
      have harms := h.arms o env' w' ht harm hparent (hparent ▸ hchain) hagrees' hselected'
      rw [Program.passing_of_next hs rfl] at htakes
      have hdone := Simulates.step htakes (harms.imp fun c w y hc => hc.before hleaves)
      exact hdone.noLeast

/-- **A select** remembers the value of its selector and tries its arms. -/
theorem evalSelect (h : ev.Simulated p fuel) (hp : p.WellFormed) {parent : Option StmtId}
    {selector : ExprId} {arms : Option StmtId}
    (hs : p.stmt? i = some ⟨.select selector arms, next, parent, scope⟩)
    (hchain : p.Chain parent o.waiting o.resumes) (w : World) (hagrees : env.Agrees w.env) :
    Simulates p 1 (fuel + 1) (o.state i 0 env [] w)
      ((do
        let v ← ev.expr scope selector
        match arms with
        | some a => ev.arms v a
        | none => return .normal : Eval Completion) w)
      (o.Completes p env (p.passing i o.waiting o.resumes)) := by
  have hselector : selector ∈ (StmtKind.select selector arms).exprs :=
    List.mem_singleton_self selector
  have hworks : (o.frame i 0 env []).Works p ((o.frame i 0 env []).evaluate selector 1) :=
    Frame.works_stmt rfl rfl hs
  refine (h.operand hp hs hselector hworks hagrees).bindLess ?_
  rintro v w' y ⟨env', hbelow, hagrees', rfl⟩
  have hdispatch : (o.frame i 1 env' [v]).Works p
      ((o.frame i 0 (env'.put (.stmt i) v) []).run arms 0) := Frame.works_stmt rfl rfl hs
  have hleaves : p.Leaves o.waiting env (env'.put (.stmt i) v) :=
    .putStmt hp hs hchain (.evaluate hp hs hchain hselector hbelow) v
  have hagrees'' : (env'.put (.stmt i) v).Agrees w'.env := hagrees'.putStmt i v
  cases arms with
  | none =>
    exact (hdispatch.completes hs hchain hleaves hagrees'').lessFuel
  | some a =>
    obtain ⟨t, ht, hparent, -, harm⟩ := (hp.stmts i _ hs).children a List.mem_cons_self
    have hinside : p.Chain t.parent (i :: o.waiting) (0 :: o.resumes) := by
      rw [hparent]
      exact .inside hs rfl hchain
    have hselected : (env'.put (.stmt i) v).get? (.stmt i) = some v := by
      rw [Env.get?_put, if_pos rfl]
    have harms := h.arms (o.inside i 0) _ w' ht harm hparent hinside hagrees'' hselected
    have hdone := Simulates.step (Frame.Works.takes_pending hdispatch) harms
    refine hdone.lessFuel.imp fun c w y hc => ?_
    -- No label is in the sequence of the arms, so no jump goes there.
    have hout : ∀ l, c = .jump l → p.parent? l ≠ some i := by
      rintro l rfl hl
      obtain ⟨u, name, hu, hkind, -⟩ := hc
      rw [Program.parent?_eq hu] at hl
      have hselect := (hp.stmts l u hu).select i _ hl hs
      rw [hkind] at hselect
      cases hselect
    exact (Spot.CompletesSequence.passing ⟨hc, hout⟩).before hleaves

end Evaluator.Simulated

end TreeMachine
